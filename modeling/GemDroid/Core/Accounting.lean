import GemDroid.Core.Refinement
import Mathlib.Algebra.BigOperators.Group.List.Basic

/-! What the counters of the reorder buffer say in every state that a core reaches. -/

namespace GemDroid

namespace Rob

/-- The instructions that are still in the buffer. -/
def insnsLeft (r : Rob) : Int :=
  (r.outstandingTransactions.map (·.numberOfInstructions)).sum

/-- The instructions in the buffer that were executed ahead of their turn. -/
def executedAhead (r : Rob) : Int :=
  (r.outstandingTransactions.map (·.instrExecutedOoo)).sum

/-- The loads and stores of an address that are not ready. -/
def waitingAt (addr : Addr) (r : Rob) : List Transaction :=
  r.outstandingTransactions.filter fun t => t.isMemory && !t.canBeCommitted && t.addr = addr

/-- The counters agree with the contents of the buffer and with what was read and committed. -/
structure Accounted (ooo : Bool) (r : Rob) : Prop where
  sized : r.Sized
  single : ∀ addr, (r.waitingAt addr).length ≤ 1
  /-- Only compute instructions are counted, and never fewer than none executed. -/
  memory : ∀ t ∈ r.outstandingTransactions, t.isMemory = true →
    t.numberOfInstructions = 0 ∧ t.instrExecutedOoo = 0
  executed : ∀ t ∈ r.outstandingTransactions, 0 ≤ t.instrExecutedOoo
  ahead : ooo = true →
    r.numberOfInstrExecutedOoO = r.executedAhead ∧ r.numberOfInstrExecutedOoO ≤ robSize
  committed : r.committedInsns = r.insnsRead - r.insnsLeft + r.memCommits

theorem accounted_empty (ooo : Bool) : Accounted ooo empty where
  -- All sums are over an empty list.
  sized := by simp [Sized, empty, maxTransactions]
  single addr := by simp [waitingAt, empty]
  memory := by simp [empty]
  executed := by simp [empty]
  ahead _ := by decide
  committed := by decide

variable {ooo : Bool} {r s : Rob}

theorem Accounted.tail {head : Transaction} {rest : List Transaction} (books : Accounted ooo r)
    (found : r.outstandingTransactions = head :: rest) (left : s.outstandingTransactions = rest)
    (sized : s.Sized) (done : head.numberOfInstructions = 0)
    (drained : ooo → head.instrExecutedOoo = 0)
    (count : s.numberOfInstrExecutedOoO = r.numberOfInstrExecutedOoO)
    (commits : s.committedInsns - s.memCommits = r.committedInsns - r.memCommits)
    (read : s.insnsRead = r.insnsRead) : Accounted ooo s := by
  -- The head contributes nothing to any of the sums.
  obtain ⟨-, single, memory, executed, ahead, committed⟩ := books
  refine ⟨sized, fun addr => le_trans (List.Sublist.length_le ?_) (single addr),
    fun t member => memory t (by simp [found, ← left, member]),
    fun t member => executed t (by simp [found, ← left, member]), fun mode => ?_, ?_⟩
  · rw [waitingAt, waitingAt, found, left]
    exact (List.sublist_cons_self head rest).filter _
  · obtain ⟨exact', bounded⟩ := ahead mode
    have := drained mode
    simp only [executedAhead, found, left, List.map_cons, List.sum_cons] at *
    omega
  · simp only [insnsLeft, found, left, List.map_cons, List.sum_cons] at *
    omega

/-- Replacing a transaction keeps the books when the counters follow its change. -/
theorem Accounted.replace {t u : Transaction} {before after : List Transaction}
    (books : Accounted ooo r) (found : r.outstandingTransactions = before ++ t :: after)
    (left : s.outstandingTransactions = before ++ u :: after) (sized : s.Sized)
    (kind : u.isMemory = t.isMemory) (same : u.addr = t.addr)
    (ready : t.canBeCommitted = true → u.canBeCommitted = true)
    (memory : u.isMemory = true → u.numberOfInstructions = t.numberOfInstructions ∧
      u.instrExecutedOoo = t.instrExecutedOoo)
    (positive : 0 ≤ u.instrExecutedOoo)
    (count : ooo → s.numberOfInstrExecutedOoO - u.instrExecutedOoo =
      r.numberOfInstrExecutedOoO - t.instrExecutedOoo ∧ s.numberOfInstrExecutedOoO ≤ robSize)
    (commits : s.committedInsns + u.numberOfInstructions =
      r.committedInsns + t.numberOfInstructions)
    (record : s.insnsRead = r.insnsRead ∧ s.memCommits = r.memCommits) : Accounted ooo s := by
  obtain ⟨-, single, idle, executed, ahead, committed⟩ := books
  -- The other transactions are those of the old buffer.
  have others : ∀ v ∈ s.outstandingTransactions, v = u ∨ v ∈ r.outstandingTransactions := by
    simp only [left, found, List.mem_append, List.mem_cons]
    tauto
  have old : t ∈ r.outstandingTransactions := by simp [found]
  refine ⟨sized, fun addr => le_trans ?_ (single addr), ?_, ?_, fun mode => ?_, ?_⟩
  · simp only [waitingAt, found, left, List.filter_append, List.filter_cons, List.length_append,
      kind, same]
    cases waits : t.canBeCommitted with
    | true => simp [ready waits]
    | false => cases u.canBeCommitted <;> simp <;> split <;> simp
  · intro v member isMemory
    rcases others v member with rfl | member
    · rw [(memory isMemory).1, (memory isMemory).2]
      exact idle t old (kind ▸ isMemory)
    · exact idle v member isMemory
  · intro v member
    rcases others v member with rfl | member
    · exact positive
    · exact executed v member
  · have := ahead mode
    have := count mode
    simp only [executedAhead, found, left, List.map_append, List.map_cons, List.sum_append,
      List.sum_cons] at *
    omega
  · simp only [insnsLeft, found, left, List.map_append, List.map_cons, List.sum_append,
      List.sum_cons] at *
    omega

/-- Appending a new transaction keeps the books when its instructions are counted as read. -/
theorem Accounted.append {kind : InstrType} {insns : Int} {addr : Addr} {t : Transaction}
    (books : Accounted ooo r) (built : Transaction.new kind insns addr r.nextTag = .ok t)
    (left : s.outstandingTransactions = r.outstandingTransactions ++ [t]) (sized : s.Sized)
    (empty : kind ≠ .cpu → insns = 0)
    (fresh : kind ≠ .cpu →
      ∀ u ∈ r.outstandingTransactions, u.addr = addr → u.canBeCommitted = true)
    (count : s.numberOfInstrExecutedOoO = r.numberOfInstrExecutedOoO)
    (commits : s.committedInsns = r.committedInsns ∧ s.memCommits = r.memCommits)
    (read : s.insnsRead = r.insnsRead + insns) : Accounted ooo s := by
  -- The new transaction has executed nothing and brings what its line says.
  obtain ⟨-, single, memory, executed, ahead, committed⟩ := books
  have fields := Transaction.new_fields built
  refine ⟨sized, fun a => ?_, ?_, ?_, fun mode => ?_, ?_⟩
  · -- A load or store is appended only where no other of its address waits.
    by_cases waits : t.isMemory && !t.canBeCommitted && decide (t.addr = a)
    · simp only [Bool.and_eq_true, decide_eq_true_eq, fields, Transaction.isMemory] at waits
      obtain ⟨⟨isMemory, -⟩, same⟩ := waits
      have none : r.waitingAt a = [] := by
        rw [waitingAt, List.filter_eq_nil_iff]
        intro u member
        by_cases match' : u.addr = addr
        · simp [fresh isMemory u member match']
        · simp [← same, match']
      rw [waitingAt] at none
      simp only [waitingAt, left, List.filter_append, none, List.nil_append]
      exact List.length_filter_le _ [t]
    · simpa [waitingAt, left, List.filter_append, List.filter_cons, waits] using single a
  · intro u member isMemory
    rw [left, List.mem_append, List.mem_singleton] at member
    rcases member with member | rfl
    · exact memory u member isMemory
    · rw [fields] at isMemory ⊢
      exact ⟨empty (by simpa [Transaction.isMemory] using isMemory), rfl⟩
  · intro u member
    rw [left, List.mem_append, List.mem_singleton] at member
    rcases member with member | rfl
    · exact executed u member
    · rw [fields]
  · have := ahead mode
    simp only [executedAhead, left, List.map_append, List.map_cons, List.map_nil, List.sum_append,
      List.sum_cons, List.sum_nil, fields] at *
    omega
  · simp only [insnsLeft, left, List.map_append, List.map_cons, List.map_nil, List.sum_append,
      List.sum_cons, List.sum_nil, fields] at *
    omega

/-- Every move keeps the books. -/
theorem Move.accounted (move : Move ooo r s) (books : Accounted ooo r) : Accounted ooo s := by
  -- Each move removes, replaces or appends one transaction.
  have sized := move.sized books.sized
  cases move with
  | retire found compute done drained =>
    exact books.tail found rfl sized done drained rfl rfl rfl
  | commit found memory ready =>
    obtain ⟨done, unexecuted⟩ := books.memory _ (by simp [found]) memory
    exact books.tail found rfl sized done (fun _ => unexecuted) rfl (by simp) rfl
  | force found memory waiting =>
    obtain ⟨done, unexecuted⟩ := books.memory _ (by simp [found]) memory
    exact books.tail found rfl sized done (fun _ => unexecuted) rfl rfl rfl
  | @execute t _ _ found compute left room =>
    have positive := books.executed t (by simp [found])
    refine books.replace found rfl sized rfl rfl id ?_ ?_ (fun mode => ?_) ?_ ⟨rfl, rfl⟩
    · exact fun memory => absurd (compute.symm.trans memory) Bool.false_ne_true
    · exact Int.add_nonneg positive (by decide)
    · have := room mode
      simp only [mode, if_true]
      omega
    · simp only
      omega
  | @drain head rest mode found compute =>
    have positive := books.executed head (by simp [found])
    have placed : r.outstandingTransactions = [] ++ head :: rest := found
    refine books.replace placed rfl sized rfl rfl id ?_ (le_refl _) (fun _ => ?_) rfl ⟨rfl, rfl⟩
    · exact fun memory => absurd (compute.symm.trans memory) Bool.false_ne_true
    · have := books.ahead mode
      simp only [Transaction.resetInstrCommitted]
      omega
  | @issue t _ _ _ _ found memory unissued =>
    have positive := books.executed t (by simp [found])
    exact books.replace found rfl sized rfl rfl id (fun _ => ⟨rfl, rfl⟩) positive
      (fun mode => ⟨rfl, (books.ahead mode).2⟩) rfl ⟨rfl, rfl⟩
  | addInstructions room built =>
    exact books.append built rfl sized (fun memory => absurd rfl memory)
      (fun memory => absurd rfl memory) rfl ⟨rfl, rfl⟩ rfl
  | addMemory room memory fresh built =>
    exact books.append built rfl sized (fun _ => rfl) (fun _ => fresh) rfl ⟨rfl, rfl⟩
      (Int.add_zero _).symm

theorem Moves.accounted (moves : Moves ooo r s) (books : Accounted ooo r) : Accounted ooo s := by
  induction moves with
  | refl => exact books
  | tail _ move ih => exact move.accounted ih

theorem Accounted.memCoreResponse (books : Accounted ooo r) (request : CoreRequest) :
    Accounted ooo (r.memCoreResponse request).1 := by
  -- Marking a transaction ready can only take it off the waiting ones.
  rcases memCoreResponse_cases books.sized request with
    ⟨-, unmarked⟩ | ⟨before, t, after, found, same, -, marked⟩
  · rw [unmarked]
    exact ⟨books.sized, books.single, books.memory, books.executed, books.ahead, books.committed⟩
  · rw [marked]
    refine books.replace found rfl ?_ rfl rfl (fun _ => rfl) (fun _ => ⟨rfl, rfl⟩)
      (books.executed t (by simp [found])) (fun mode => ⟨rfl, (books.ahead mode).2⟩) rfl ⟨rfl, rfl⟩
    simpa [Sized, found] using books.sized

end Rob

namespace Core

theorem step_accounted {cfg : CoreConfig} {c d : Core} {e : CoreEvent}
    (books : Rob.Accounted (!cfg.inOrder) c.pipe.rob) (taken : step cfg c e = some d) :
    Rob.Accounted (!cfg.inOrder) d.pipe.rob := by
  -- Only ticks and responses reach the buffer.
  cases e with
  | tick env =>
    have moves := (tick_ends cfg env books.sized).of_ok (step_tick taken)
    exact moves.accounted books
  | memCoreResponse request =>
    obtain ⟨-, rfl⟩ := step_memCoreResponse taken
    exact books.memCoreResponse request
  | setDvfs dvfs =>
    obtain rfl := step_setDvfs taken
    exact books

theorem run_accounted {cfg : CoreConfig} {held : CoreDvfs} {trace : List Word}
    {coreFreq optDVFSState : Int} {es : List CoreEvent} {c d : Core}
    (built : init cfg held trace coreFreq optDVFSState = .ok c)
    (ran : Machine.run (step cfg) c es = some d) : Rob.Accounted (!cfg.inOrder) d.pipe.rob := by
  -- The run starts with an empty buffer.
  refine Machine.run_preserves (fun _ _ _ => step_accounted) ?_ ran
  rw [(init_fresh built).1]
  exact Rob.accounted_empty _

/--
The counters of the reorder buffer are exact in every state that a core reaches.

No instruction is lost or committed twice, no assertion about the size ends a tick, and the bound
on the rounds of `process` is never reached.
-/
theorem buffer_accounted (cfg : CoreConfig) (held : CoreDvfs) (trace : List Word)
    (coreFreq optDVFSState : Int) (es : List CoreEvent) (c d : Core)
    (built : init cfg held trace coreFreq optDVFSState = .ok c)
    (ran : Machine.run (step cfg) c es = some d) :
    (d.pipe.rob.outstandingTransactionsSize = d.pipe.rob.outstandingTransactions.length ∧
      0 ≤ d.pipe.rob.outstandingTransactionsSize ∧
      d.pipe.rob.outstandingTransactionsSize ≤ maxTransactions ∧
      ∀ env fault, d.tick cfg env = .error fault →
        fault ≠ .sizeBelowZero ∧ fault ≠ .sizeAboveMax ∧ fault ≠ .outOfFuel) ∧
    (∀ addr, (d.pipe.rob.waitingAt addr).length ≤ 1) ∧
    (cfg.inOrder = false →
      d.pipe.rob.numberOfInstrExecutedOoO = d.pipe.rob.executedAhead ∧
        d.pipe.rob.numberOfInstrExecutedOoO ≤ robSize) ∧
    d.pipe.rob.committedInsns =
      d.pipe.rob.insnsRead - d.pipe.rob.insnsLeft + d.pipe.rob.memCommits := by
  have books := run_accounted built ran
  obtain ⟨exact', bounded⟩ := books.sized
  refine ⟨⟨exact', by omega, bounded, fun env fault failed => ?_⟩, books.single,
    fun mode => books.ahead (by simp [mode]), books.committed⟩
  -- The faults a tick can end with are those of its input and of its power state.
  rcases (tick_ends cfg env books.sized).of_error failed with (rfl | rfl) | ⟨rfl, -⟩ <;>
    exact ⟨nofun, nofun, nofun⟩

/-- The rounds of an out-of-order core keep the books over two CPU lines and a load. -/
theorem load_between_instructions_accounted :
    ∃ es d, Machine.run (step (coreBound 2 false))
      (started [.cpu, .num 2, .num 0, .mmuLd, .num 64, .num 4, .cpu, .num 1, .num 0]) es =
        some d ∧ d.pipe.rob.committedInsns = 4 ∧
      d.pipe.rob.committedInsns =
        d.pipe.rob.insnsRead - d.pipe.rob.insnsLeft + d.pipe.rob.memCommits := by
  -- The load is issued ahead and answered before the last tick.
  let trace : List Word :=
    [.cpu, .num 2, .num 0, .mmuLd, .num 64, .num 4, .cpu, .num 1, .num 0]
  let es : List CoreEvent :=
    List.replicate 4 (.tick accepting) ++ [.memCoreResponse ⟨1, 64, true⟩, .tick accepting]
  have short : (Machine.run (step (coreBound 2 false)) (started trace) es).any
      (fun d => d.pipe.rob.committedInsns = 4) = true := by
    decide +kernel
  obtain ⟨d, ran, four⟩ := (Option.any_eq_true _ _).mp short
  exact ⟨es, d, ran, of_decide_eq_true four,
    (buffer_accounted (coreBound 2 false) _ trace 1000 7 es _ d (init_started 2 false trace)
      ran).2.2.2⟩

end Core

end GemDroid
