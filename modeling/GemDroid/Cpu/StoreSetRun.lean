import GemDroid.Cpu.StoreSet
import GemDroid.Lib.Run

/-! Which stores the predictor lists after a squash, and which ones it names along a run. -/

namespace GemDroid

namespace StoreSet

variable {SSITSize LFSTSize : Nat} {p p' : StoreSet SSITSize LFSTSize} {n s : Nat}

section lists

/-- A store list has the greatest number first, and every number once. -/
def Sorted (es : List (Nat × Fin LFSTSize)) : Prop :=
  es.Pairwise fun e f => f.1 < e.1

variable {id : Fin LFSTSize} {es : List (Nat × Fin LFSTSize)}

theorem setStore_sorted (sorted : Sorted es) :
    Sorted (setStore s id es) := by
  induction es with
  | nil => exact List.pairwise_singleton _ _
  | cons e es ih =>
    obtain ⟨below, sorted'⟩ := List.pairwise_cons.mp sorted
    rw [setStore]
    split_ifs with younger same
    · refine List.pairwise_cons.mpr ⟨fun f member => ?_, ih sorted'⟩
      rcases mem_setStore member with rfl | old
      · exact younger
      · exact below f old
    · exact List.pairwise_cons.mpr ⟨fun f member => same ▸ below f member, sorted'⟩
    · refine List.pairwise_cons.mpr ⟨fun f member => ?_, sorted⟩
      rcases List.mem_cons.mp member with rfl | later
      · show f.1 < s
        omega
      · have less := below f later
        show f.1 < s
        omega

theorem mem_setStore_self :
    (s, id) ∈ setStore s id es := by
  induction es with
  | nil => exact List.mem_cons_self
  | cons e es ih =>
    rw [setStore]
    split_ifs
    · exact List.mem_cons_of_mem e ih
    · exact List.mem_cons_self
    · exact List.mem_cons_self

theorem mem_setStore_of_ne {f : Nat × Fin LFSTSize} (member : f ∈ es)
    (other : f.1 ≠ s) : f ∈ setStore s id es := by
  induction es with
  | nil => cases member
  | cons e es ih =>
    rw [setStore]
    split_ifs with younger same
    · rcases List.mem_cons.mp member with rfl | later
      · exact List.mem_cons_self
      · exact List.mem_cons_of_mem e (ih later)
    · rcases List.mem_cons.mp member with rfl | later
      · exact absurd same other
      · exact List.mem_cons_of_mem _ later
    · exact List.mem_cons_of_mem _ member

/-- A loop that returns has taken the younger stores off the list, and from their sets. -/
theorem squashLoop_spec (sorted : Sorted es) (returned : p.squashLoop n es = some p') :
    p'.storeList = es.filter (fun e => e.1 ≤ n) ∧ p'.LFST = p.LFST ∧
      ∀ id, p'.validLFST id = true ↔
        p.validLFST id = true ∧ ∀ e ∈ es, e.2 = id → e.1 ≤ n := by
  induction es generalizing p with
  | nil =>
    obtain rfl := Option.some.inj returned
    exact ⟨rfl, rfl, fun id => by simp⟩
  | cons e es ih =>
    obtain ⟨below, sorted'⟩ := List.pairwise_cons.mp sorted
    rw [squashLoop] at returned
    split_ifs at returned with older younger
    · -- All stores behind the first one that stays are older still.
      obtain rfl := Option.some.inj returned
      have all_older (f : Nat × Fin LFSTSize) (member : f ∈ e :: es) : f.1 ≤ n := by
        rcases List.mem_cons.mp member with rfl | later
        · exact older
        · exact (below f later).le.trans older
      refine ⟨?_, rfl, fun id => ⟨fun valid => ⟨valid, fun f member _ => all_older f member⟩,
        fun kept => kept.1⟩⟩
      exact (List.filter_eq_self.mpr fun f member => decide_eq_true (all_older f member)).symm
    · obtain ⟨list, last, valid⟩ := ih sorted' returned
      refine ⟨?_, last, fun id => ?_⟩
      · rw [list, List.filter_cons_of_neg (by simpa using older)]
      · rw [valid id, List.forall_mem_cons]
        show Function.update p.validLFST e.2 false id = true ∧ _ ↔ _
        rw [Function.update_apply]
        split_ifs with here
        · simp only [false_and, false_iff]
          exact fun kept => older (kept.2.1 here.symm)
        · exact ⟨fun kept => ⟨kept.1, fun same => absurd same.symm here, kept.2⟩,
            fun kept => ⟨kept.1, kept.2.2⟩⟩

end lists

section operations

theorem sorted_checkClear (sorted : Sorted p.storeList) : Sorted p.checkClear.storeList := by
  rw [checkClear]
  split_ifs
  · exact List.Pairwise.nil
  · exact sorted

variable [NeZero SSITSize]

theorem sorted_insertStore (sorted : Sorted p.storeList) (pc : Addr) :
    Sorted (p.insertStore pc s).storeList := by
  rw [insertStore]
  dsimp only
  split_ifs
  · exact setStore_sorted (sorted_checkClear sorted)
  · exact sorted_checkClear sorted

theorem storeList_issued (pc : Addr) :
    (p.issued pc s true).storeList = p.storeList.filter fun e => e.1 ≠ s := by
  rw [issued, if_pos rfl]
  dsimp only
  split_ifs <;> rfl

theorem validLFST_issued (pc : Addr) (id : Fin LFSTSize) :
    (p.issued pc s true).LFST = p.LFST ∧ ((p.issued pc s true).validLFST id = true ↔
      p.validLFST id = true ∧ ¬(p.validSSIT (calcIndex pc) = true ∧ p.SSIT (calcIndex pc) = id ∧
        p.LFST id = s)) := by
  rw [issued, if_pos rfl]
  dsimp only
  split_ifs with valid last
  · refine ⟨rfl, ?_⟩
    obtain ⟨valid', same⟩ := Bool.and_eq_true_iff.mp last
    show Function.update p.validLFST _ false id = true ↔ _
    rw [Function.update_apply]
    split_ifs with here
    · rw [here]
      simpa [valid] using fun _ => beq_iff_eq.mp same
    · exact ⟨fun kept => ⟨kept, fun named => here named.2.1.symm⟩, fun kept => kept.1⟩
  · refine ⟨rfl, fun kept => ⟨kept, ?_⟩, fun kept => kept.1⟩
    rintro ⟨-, rfl, same⟩
    exact last (Bool.and_eq_true_iff.mpr ⟨kept, beq_iff_eq.mpr same⟩)
  · exact ⟨rfl, fun kept => ⟨kept, fun named => valid named.1⟩, fun kept => kept.1⟩

end operations

section runs

variable [NeZero SSITSize] [NeZero LFSTSize]

/-- What happens to the predictor. -/
inductive Op
  | violation (store_PC load_PC : Addr)
  | insertLoad (load_PC : Addr) (load_seq_num : Nat)
  | insertStore (store_PC : Addr) (store_seq_num : Nat)
  | issued (issued_PC : Addr) (issued_seq_num : Nat) (is_store : Bool)
  | squash (squashed_num : Nat)
  | clear

/-- Take one step, which is refused when it does not return. -/
def step (p : StoreSet SSITSize LFSTSize) : Op → Option (StoreSet SSITSize LFSTSize)
  | .violation store_PC load_PC => some (p.violation store_PC load_PC)
  | .insertLoad load_PC load_seq_num => some (p.insertLoad load_PC load_seq_num)
  | .insertStore store_PC store_seq_num => some (p.insertStore store_PC store_seq_num)
  | .issued issued_PC issued_seq_num is_store =>
    some (p.issued issued_PC issued_seq_num is_store)
  | .squash squashed_num => p.squash squashed_num
  | .clear => some p.clear

/-- The number of the store that an event inserts. -/
def Op.inserted : Op → Option Nat
  | .insertStore _ store_seq_num => some store_seq_num
  | _ => none

/-- A squash leaves the stores on the list that are not younger. -/
def KeepsOlder (p : StoreSet SSITSize LFSTSize) : Op → Prop
  | .squash squashed_num =>
    ∀ p', p.squash squashed_num = some p' →
      p'.storeList = p.storeList.filter fun e => e.1 ≤ squashed_num
  | _ => True

theorem step_returns (sorted : Sorted p.storeList) (within : Within p n) (op : Op)
    (newer : ∀ s ∈ op.inserted, n ≤ s) : ∃ p', step p op = some p' ∧ Sorted p'.storeList ∧
      Within p' (op.inserted.getD n) ∧ KeepsOlder p op := by
  cases op with
  | violation store_PC load_PC =>
    have list := (violation_tables (p := p) store_PC load_PC).2.2
    exact ⟨_, rfl, list.symm ▸ sorted, within.violation store_PC load_PC, trivial⟩
  | insertLoad load_PC load_seq_num =>
    exact ⟨_, rfl, sorted_checkClear sorted, within.checkClear, trivial⟩
  | insertStore store_PC store_seq_num =>
    exact ⟨_, rfl, sorted_insertStore sorted store_PC,
      within.insertStore store_PC (newer store_seq_num rfl), trivial⟩
  | issued issued_PC issued_seq_num is_store =>
    refine ⟨_, rfl, ?_, within.issued issued_PC issued_seq_num is_store, trivial⟩
    cases is_store with
    | false => exact sorted
    | true => exact storeList_issued (p := p) issued_PC ▸ sorted.filter _
  | squash squashed_num =>
    obtain ⟨p', returned, within', -⟩ :=
      squashLoop_returns squashed_num p.storeList within.listed within.bounded
    have list (p'' : StoreSet SSITSize LFSTSize) (same : p.squash squashed_num = some p'') :
        p''.storeList = p.storeList.filter fun e => e.1 ≤ squashed_num :=
      (squashLoop_spec sorted same).1
    exact ⟨p', returned, list p' returned ▸ sorted.filter _, within', list⟩
  | clear =>
    exact ⟨_, rfl, List.Pairwise.nil, ⟨fun e never => absurd never List.not_mem_nil,
      within.bounded⟩, trivial⟩

theorem run_keeps_older (sorted : Sorted p.storeList) (within : Within p n) (ops : List Op)
    (newer : ∀ s ∈ ops.filterMap Op.inserted, n ≤ s)
    (increasing : (ops.filterMap Op.inserted).Pairwise (· < ·)) :
    (Machine.run step p ops).isSome ∧ Machine.Meets step KeepsOlder p ops := by
  -- The bound on the numbers so far goes up to the store that is inserted.
  induction ops generalizing p n with
  | nil => exact ⟨rfl, trivial⟩
  | cons op ops ih =>
    obtain ⟨p', taken, sorted', within', keeps⟩ := step_returns sorted within op fun s mem =>
      newer s (List.mem_filterMap.mpr ⟨op, List.mem_cons_self, mem⟩)
    have later : (∀ s ∈ ops.filterMap Op.inserted, op.inserted.getD n ≤ s) ∧
        (ops.filterMap Op.inserted).Pairwise (· < ·) := by
      cases number : op.inserted with
      | none =>
        rw [List.filterMap_cons_none number] at newer increasing
        exact ⟨newer, increasing⟩
      | some s =>
        rw [List.filterMap_cons_some number, List.pairwise_cons] at increasing
        exact ⟨fun t mem => (increasing.1 t mem).le, increasing.2⟩
    obtain ⟨returned, meets⟩ := ih sorted' within' later.1 later.2
    exact ⟨by rwa [Machine.run_cons, taken, Option.bind_some], Machine.meets_cons taken keeps meets⟩

/--
When stores are inserted with increasing numbers, every squash returns, and the list then has those
of its stores that are not younger.
-/
theorem squash_keeps_older (clear_period : Nat) (ops : List Op)
    (increasing : (ops.filterMap Op.inserted).Pairwise (· < ·)) :
    (Machine.run step (init clear_period : StoreSet SSITSize LFSTSize) ops).isSome ∧
      Machine.Meets step KeepsOlder (init clear_period : StoreSet SSITSize LFSTSize) ops := by
  have sorted : Sorted (init clear_period : StoreSet SSITSize LFSTSize).storeList :=
    List.Pairwise.nil
  have within : Within (init clear_period : StoreSet SSITSize LFSTSize) 0 :=
    ⟨fun e never => absurd never List.not_mem_nil, fun _ => le_refl 0⟩
  exact run_keeps_older sorted within ops (fun s _ => Nat.zero_le s) increasing

/-- The theorem at two stores of one set, the younger of which is squashed. -/
theorem two_stores_keep_older :
    (Machine.run step (init 100 : StoreSet 4 4) [.violation 8 0x404, .insertStore 8 5,
        .insertStore 8 7, .squash 6]).isSome ∧
      Machine.Meets step KeepsOlder (init 100 : StoreSet 4 4) [.violation 8 0x404,
        .insertStore 8 5, .insertStore 8 7, .squash 6] :=
  squash_keeps_older 100 _ (by decide)

end runs

end StoreSet

/-- The predictor together with the stores that it was told of. -/
structure TrackedStores (SSITSize LFSTSize : Nat) where
  sets : StoreSet SSITSize LFSTSize
  /-- The numbers and the instructions of all stores. -/
  inserted : List (Nat × Addr) := []
  /-- The stores that have been neither issued nor squashed. -/
  waiting : List (Nat × Addr) := []

namespace TrackedStores

open StoreSet (Op Sorted)

variable {SSITSize LFSTSize : Nat} {t t' : TrackedStores SSITSize LFSTSize}

/-- The stores that were told of after an event. -/
def insertedAfter (t : TrackedStores SSITSize LFSTSize) : Op → List (Nat × Addr)
  | .insertStore store_PC store_seq_num => (store_seq_num, store_PC) :: t.inserted
  | _ => t.inserted

/-- The stores that wait after an event. -/
def waitingAfter (t : TrackedStores SSITSize LFSTSize) : Op → List (Nat × Addr)
  | .insertStore store_PC store_seq_num => (store_seq_num, store_PC) :: t.waiting
  | .issued _ issued_seq_num true => t.waiting.filter fun w => w.1 ≠ issued_seq_num
  | .squash squashed_num => t.waiting.filter fun w => w.1 ≤ squashed_num
  | _ => t.waiting

/-- The stores that are listed wait, and the last store of every set is listed under it. -/
structure Kept (t : TrackedStores SSITSize LFSTSize) : Prop where
  sorted : Sorted t.sets.storeList
  listed : ∀ e ∈ t.sets.storeList, ∃ w ∈ t.waiting, w.1 = e.1
  inserted : ∀ w ∈ t.waiting, w ∈ t.inserted
  last : ∀ id, t.sets.validLFST id = true → (t.sets.LFST id, id) ∈ t.sets.storeList

theorem Kept.clear (kept : Kept t) : Kept { t with sets := t.sets.clear } :=
  ⟨List.Pairwise.nil, fun _ never => absurd never List.not_mem_nil, kept.inserted,
    fun _ never => absurd never Bool.false_ne_true⟩

theorem Kept.checkClear (kept : Kept t) : Kept { t with sets := t.sets.checkClear } := by
  rw [StoreSet.checkClear]
  split_ifs
  · exact ⟨List.Pairwise.nil, fun _ never => absurd never List.not_mem_nil, kept.inserted,
      fun _ never => absurd never Bool.false_ne_true⟩
  · exact ⟨kept.sorted, kept.listed, kept.inserted, kept.last⟩

theorem Kept.squash (kept : Kept t) {n : Nat} {sets : StoreSet SSITSize LFSTSize}
    (returned : t.sets.squash n = some sets) :
    Kept { t with sets := sets, waiting := t.waiting.filter fun w => w.1 ≤ n } := by
  obtain ⟨list, last, still⟩ := StoreSet.squashLoop_spec kept.sorted returned
  refine ⟨list ▸ kept.sorted.filter _, fun e mem => ?_,
    fun w mem => kept.inserted w (List.mem_of_mem_filter mem), fun id valid => ?_⟩
  · replace mem : e ∈ sets.storeList := mem
    rw [list] at mem
    obtain ⟨old, older⟩ := List.mem_filter.mp mem
    obtain ⟨w, waits, same⟩ := kept.listed e old
    exact ⟨w, List.mem_filter.mpr ⟨waits, same ▸ older⟩, same⟩
  · obtain ⟨valid', older⟩ := (still id).mp valid
    show (sets.LFST id, id) ∈ sets.storeList
    rw [last, list]
    have mem := kept.last id valid'
    exact List.mem_filter.mpr ⟨mem, decide_eq_true (older _ mem rfl)⟩

variable [NeZero SSITSize]

/-- A store that is issued is the last one of no set but that of its instruction. -/
def LastOfOwn (t : TrackedStores SSITSize LFSTSize) : Op → Prop
  | .issued issued_PC issued_seq_num true =>
    ∀ id, t.sets.validLFST id = true → t.sets.LFST id = issued_seq_num →
      t.sets.validSSIT (StoreSet.calcIndex issued_PC) = true ∧
        t.sets.SSIT (StoreSet.calcIndex issued_PC) = id
  | _ => True

theorem Kept.insertStore (kept : Kept t) {s : Nat} (pc : Addr)
    (fresh : ∀ w ∈ t.inserted, w.1 ≠ s) :
    Kept { sets := t.sets.insertStore pc s, inserted := (s, pc) :: t.inserted,
           waiting := (s, pc) :: t.waiting } := by
  have cleared := kept.checkClear
  have unlisted (e : Nat × Fin LFSTSize) (mem : e ∈ t.sets.checkClear.storeList) : e.1 ≠ s := by
    obtain ⟨w, waits, same⟩ := cleared.listed e mem
    exact same ▸ fresh w (kept.inserted w waits)
  have inserted (w : Nat × Addr) (mem : w ∈ (s, pc) :: t.waiting) : w ∈ (s, pc) :: t.inserted := by
    rcases List.mem_cons.mp mem with rfl | old
    · exact List.mem_cons_self
    · exact List.mem_cons_of_mem _ (kept.inserted w old)
  rw [StoreSet.insertStore]
  dsimp only
  split_ifs
  · refine ⟨StoreSet.setStore_sorted cleared.sorted, fun e mem => ?_, inserted, fun id valid => ?_⟩
    · rcases StoreSet.mem_setStore mem with rfl | old
      · exact ⟨(s, pc), List.mem_cons_self, rfl⟩
      · obtain ⟨w, waits, same⟩ := cleared.listed e old
        exact ⟨w, List.mem_cons_of_mem _ waits, same⟩
    · dsimp only at valid ⊢
      rw [Function.update_apply] at valid ⊢
      split_ifs at valid ⊢ with here
      · rw [here]
        exact StoreSet.mem_setStore_self
      · have mem := cleared.last id valid
        exact StoreSet.mem_setStore_of_ne mem (unlisted _ mem)
  · refine ⟨cleared.sorted, fun e mem => ?_, inserted, cleared.last⟩
    obtain ⟨w, waits, same⟩ := cleared.listed e mem
    exact ⟨w, List.mem_cons_of_mem _ waits, same⟩

theorem Kept.issued (kept : Kept t) {s : Nat} (pc : Addr)
    (own : LastOfOwn t (.issued pc s true)) :
    Kept { t with
      sets := t.sets.issued pc s true, waiting := t.waiting.filter fun w => w.1 ≠ s } := by
  have list := StoreSet.storeList_issued (p := t.sets) (s := s) pc
  refine ⟨list ▸ kept.sorted.filter _, fun e mem => ?_,
    fun w mem => kept.inserted w (List.mem_of_mem_filter mem), fun id valid => ?_⟩
  · replace mem : e ∈ (t.sets.issued pc s true).storeList := mem
    rw [list] at mem
    obtain ⟨old, other⟩ := List.mem_filter.mp mem
    obtain ⟨w, waits, same⟩ := kept.listed e old
    exact ⟨w, List.mem_filter.mpr ⟨waits, same ▸ other⟩, same⟩
  · obtain ⟨last, still⟩ := StoreSet.validLFST_issued (p := t.sets) (s := s) pc id
    obtain ⟨valid', unnamed⟩ := still.mp valid
    show ((t.sets.issued pc s true).LFST id, id) ∈ (t.sets.issued pc s true).storeList
    rw [last, list]
    refine List.mem_filter.mpr ⟨kept.last id valid', decide_eq_true fun same => unnamed ?_⟩
    obtain ⟨set_valid, set⟩ := own id valid' same
    exact ⟨set_valid, set, same⟩

variable [NeZero LFSTSize]

/-- Take one step. -/
def step (t : TrackedStores SSITSize LFSTSize) (op : Op) :
    Option (TrackedStores SSITSize LFSTSize) :=
  (t.sets.step op).map fun sets =>
    { sets, inserted := t.insertedAfter op, waiting := t.waitingAfter op }

/-- Every store has a number of its own, and it is issued at most once, and only while it waits. -/
def OnceEach (t : TrackedStores SSITSize LFSTSize) : Op → Prop
  | .insertStore _ store_seq_num => ∀ w ∈ t.inserted, w.1 ≠ store_seq_num
  | .issued issued_PC issued_seq_num true =>
    ∀ w ∈ t.inserted, w.1 = issued_seq_num → w ∈ t.waiting ∧ w.2 = issued_PC
  | _ => True

/-- Whatever instruction is checked, it depends on no store or on one that waits. -/
def NamesWaiting (t : TrackedStores SSITSize LFSTSize) : Prop :=
  ∀ pc, t.sets.checkInst pc = 0 ∨ ∃ w ∈ t.waiting, w.1 = t.sets.checkInst pc

theorem Kept.namesWaiting (kept : Kept t) : NamesWaiting t := by
  intro pc
  rcases t.sets.checkInst_names pc with none_named | ⟨id, valid, last⟩
  · exact .inl none_named
  · obtain ⟨w, waits, same⟩ := kept.listed _ (kept.last id valid)
    exact .inr ⟨w, waits, same.trans last⟩

theorem Kept.step (kept : Kept t) {op : Op} (once : OnceEach t op) (own : LastOfOwn t op)
    (taken : step t op = some t') : Kept t' := by
  obtain ⟨sets, stepped, rfl⟩ := Option.map_eq_some_iff.mp taken
  cases op with
  | violation store_PC load_PC =>
    obtain rfl := Option.some.inj stepped
    obtain ⟨last, valid, list⟩ := StoreSet.violation_tables (p := t.sets) store_PC load_PC
    refine ⟨list.symm ▸ kept.sorted, fun e mem => ?_, kept.inserted, fun id valid' => ?_⟩
    · exact kept.listed e (list ▸ mem)
    · show ((t.sets.violation store_PC load_PC).LFST id, id) ∈
        (t.sets.violation store_PC load_PC).storeList
      rw [last, list]
      exact kept.last id (valid ▸ valid')
  | insertLoad load_PC load_seq_num =>
    obtain rfl := Option.some.inj stepped
    exact kept.checkClear
  | insertStore store_PC store_seq_num =>
    obtain rfl := Option.some.inj stepped
    exact kept.insertStore store_PC once
  | issued issued_PC issued_seq_num is_store =>
    obtain rfl := Option.some.inj stepped
    cases is_store with
    | false => exact ⟨kept.sorted, kept.listed, kept.inserted, kept.last⟩
    | true => exact kept.issued issued_PC own
  | squash squashed_num => exact kept.squash stepped
  | clear =>
    obtain rfl := Option.some.inj stepped
    exact kept.clear

/-- A new predictor, which has been told of no store. -/
def create (clear_period : Nat) : TrackedStores SSITSize LFSTSize where
  sets := .init clear_period

/--
What the predictor names are stores that wait, as long as every store that issues is the last one
of no set but that of its instruction.
-/
theorem checkInst_names_waiting (clear_period : Nat) (ops : List Op)
    (once : Machine.Meets step OnceEach (create clear_period : TrackedStores SSITSize LFSTSize) ops)
    (own : Machine.Meets step LastOfOwn (create clear_period : TrackedStores SSITSize LFSTSize)
      ops) :
    Machine.Always step NamesWaiting (create clear_period : TrackedStores SSITSize LFSTSize) ops :=
  Machine.always_of_meets (I := Kept) (fun _ kept => kept.namesWaiting)
    (fun _ _ _ kept allowed taken => kept.step allowed.1 allowed.2 taken)
    ⟨List.Pairwise.nil, fun _ never => absurd never List.not_mem_nil,
      fun _ never => absurd never List.not_mem_nil, fun _ never => absurd never Bool.false_ne_true⟩
    (once.and own)

/-- A store that is issued from the set that it was inserted under. -/
def issuedOps : List Op := [.violation 8 0x404, .insertStore 8 5, .issued 8 5 true]

/-- The theorem at a store that is issued from its set. -/
theorem issued_names_waiting :
    Machine.Always step NamesWaiting (create 100 : TrackedStores 4 4) issuedOps := by
  refine checkInst_names_waiting 100 issuedOps ?_ ?_
  · intro t taken
    obtain rfl := Option.some.inj taken
    refine ⟨trivial, fun t taken => ?_⟩
    obtain rfl := Option.some.inj taken
    refine ⟨fun w never => absurd never List.not_mem_nil, fun t taken => ?_⟩
    obtain rfl := Option.some.inj taken
    refine ⟨fun w mem _ => ?_, trivial⟩
    rw [List.mem_singleton.mp mem]
    exact ⟨List.mem_cons_self, rfl⟩
  · intro t taken
    obtain rfl := Option.some.inj taken
    refine ⟨trivial, fun t taken => ?_⟩
    obtain rfl := Option.some.inj taken
    refine ⟨trivial, fun t taken => ?_⟩
    obtain rfl := Option.some.inj taken
    exact ⟨by rw [LastOfOwn]; decide, trivial⟩

/-- A store whose instruction goes to another set before it is issued. -/
def movedOps : List Op :=
  [.violation 8 0x404, .insertStore 8 5, .violation 0 0xC, .violation 8 0xC, .issued 8 5 true]

/-- The store that was issued is still the last one of the set that it was inserted under. -/
theorem moved_store_named : ¬∀ (clear_period : Nat) (ops : List Op),
    Machine.Meets step OnceEach (create clear_period : TrackedStores 4 4) ops →
      Machine.Always step NamesWaiting (create clear_period : TrackedStores 4 4) ops := by
  intro claim
  have always := claim 100 movedOps (by
    intro t taken
    obtain rfl := Option.some.inj taken
    refine ⟨trivial, fun t taken => ?_⟩
    obtain rfl := Option.some.inj taken
    refine ⟨fun w never => absurd never List.not_mem_nil, fun t taken => ?_⟩
    obtain rfl := Option.some.inj taken
    refine ⟨trivial, fun t taken => ?_⟩
    obtain rfl := Option.some.inj taken
    refine ⟨trivial, fun t taken => ?_⟩
    obtain rfl := Option.some.inj taken
    refine ⟨fun w mem _ => ?_, trivial⟩
    rw [List.mem_singleton.mp mem]
    exact ⟨List.mem_cons_self, rfl⟩)
  rcases (always.at_end rfl) 0x404 with none_named | ⟨w, never, -⟩
  · exact absurd none_named (by decide)
  · cases never

end TrackedStores

end GemDroid
