import GemDroid.Cpu.Tournament
import GemDroid.Lib.Run
import Mathlib.Data.List.Basic

/-! Over every run the direction predictor is trained once for each branch that is kept. -/

namespace GemDroid

namespace BPredUnit

variable {PCState StaticInst Tables BPHistory : Type}
  {l : List (PredictorHistory PCState BPHistory)} {unit : BPredUnit PCState Tables BPHistory}

theorem predict_record (isa : BranchIsa PCState StaticInst)
    (bp : DirectionPredictor Tables BPHistory) (unit : BPredUnit PCState Tables BPHistory)
    (seqNum : Nat) (inst : StaticInst) (pc : PCState) :
    ∃ record, (unit.predict isa bp inst seqNum pc).1.predHist = record :: unit.predHist ∧
      record.seqNum = seqNum ∧
      (unit.predict isa bp inst seqNum pc).1.trainings = unit.trainings := by
  unfold predict
  obtain ⟨pred_taken, bpHistory, tables⟩ := unit.direction isa bp inst pc
  dsimp only
  -- Whichever way the branch is predicted, one record is pushed.
  split
  · split
    · exact ⟨_, rfl, rfl, rfl⟩
    · split
      · refine ⟨_, rfl, ?_, rfl⟩
        split <;> rfl
      · split
        · refine ⟨_, rfl, ?_, rfl⟩
          split <;> rfl
        · split
          · refine ⟨_, rfl, ?_, rfl⟩
            split <;> rfl
          · refine ⟨_, rfl, ?_, rfl⟩
            split <;> rfl
  · exact ⟨_, rfl, rfl, rfl⟩

/-- The loop of `update` trains with the entries up to the number and leaves the others. -/
theorem updateLoop_spec (bp : DirectionPredictor Tables BPHistory) (seqNum : Nat)
    (unit : BPredUnit PCState Tables BPHistory) (sorted : l.Pairwise fun h h' =>
      h.seqNum < h'.seqNum) :
    (updateLoop bp seqNum l unit).1 = l.filter (fun h => decide (seqNum < h.seqNum)) ∧
      (updateLoop bp seqNum l unit).2.trainings =
        ((l.filter fun h => decide (h.seqNum ≤ seqNum)).map
          fun h => h.training h.predTaken false).reverse ++ unit.trainings := by
  -- The induction follows the history from its oldest entry.
  induction l generalizing unit with
  | nil => exact ⟨rfl, rfl⟩
  | cons back rest ih =>
    rw [List.pairwise_cons] at sorted
    obtain ⟨older, rest_sorted⟩ := sorted
    rw [updateLoop]
    by_cases due : back.seqNum ≤ seqNum
    · obtain ⟨left, trained⟩ := ih (unit.train bp back back.predTaken false) rest_sorted
      rw [if_pos due, left, trained, List.filter_cons_of_neg (by simpa using due),
        List.filter_cons_of_pos (by simpa using due)]
      simp [train]
    · -- The entries after the first that is kept are younger still.
      have kept : ∀ h ∈ rest, seqNum < h.seqNum := by
        intro h member
        have younger := older h member
        omega
      have none : ∀ h ∈ rest, ¬h.seqNum ≤ seqNum := fun h member =>
        Nat.not_le.mpr (kept h member)
      rw [if_neg due]
      have all : rest.filter (fun h => decide (seqNum < h.seqNum)) = rest := by
        simpa [List.filter_eq_self] using kept
      have nothing : rest.filter (fun h => decide (h.seqNum ≤ seqNum)) = [] := by
        simpa [List.filter_eq_nil_iff] using kept
      simp [all, nothing, Nat.lt_of_not_le due]

theorem squashLoop_spec (bp : DirectionPredictor Tables BPHistory) (seqNum : Nat)
    (unit : BPredUnit PCState Tables BPHistory) (sorted : l.Pairwise fun h h' =>
      h'.seqNum < h.seqNum) :
    (squashLoop bp seqNum l unit).1 = l.filter (fun h => decide (h.seqNum ≤ seqNum)) ∧
      (squashLoop bp seqNum l unit).2.trainings = unit.trainings := by
  -- The induction follows the history from its youngest entry.
  induction l generalizing unit with
  | nil => exact ⟨rfl, rfl⟩
  | cons front rest ih =>
    rw [List.pairwise_cons] at sorted
    obtain ⟨younger, rest_sorted⟩ := sorted
    rw [squashLoop]
    by_cases later : front.seqNum > seqNum
    · rw [if_pos later]
      obtain ⟨left, trained⟩ := ih { unit with
        RAS := undoRAS unit.RAS front
        tables := bp.squash unit.tables front.bpHistory } rest_sorted
      refine ⟨?_, trained⟩
      simp [left, Nat.not_le.mpr later]
    · have kept : ∀ h ∈ rest, h.seqNum ≤ seqNum := by
        intro h member
        have older := younger h member
        omega
      rw [if_neg later]
      have all : rest.filter (fun h => decide (h.seqNum ≤ seqNum)) = rest := by
        simpa [List.filter_eq_self] using kept
      simp [all, Nat.le_of_not_lt later]

theorem update_spec (bp : DirectionPredictor Tables BPHistory) (seqNum : Nat)
    (sorted : unit.predHist.Pairwise fun h h' => h'.seqNum < h.seqNum) :
    (unit.update bp seqNum).predHist =
        unit.predHist.filter (fun h => decide (seqNum < h.seqNum)) ∧
      (unit.update bp seqNum).trainings =
        ((unit.predHist.filter fun h => decide (h.seqNum ≤ seqNum)).map
          fun h => h.training h.predTaken false) ++ unit.trainings := by
  have looped := updateLoop_spec bp seqNum unit (List.pairwise_reverse.mpr sorted)
  unfold update
  dsimp only
  rw [looped.1, looped.2]
  simp [List.filter_reverse]

theorem squash_spec (bp : DirectionPredictor Tables BPHistory) (seqNum : Nat)
    (sorted : unit.predHist.Pairwise fun h h' => h'.seqNum < h.seqNum) :
    (unit.squash bp seqNum).predHist =
        unit.predHist.filter (fun h => decide (h.seqNum ≤ seqNum)) ∧
      (unit.squash bp seqNum).trainings = unit.trainings :=
  squashLoop_spec bp seqNum unit sorted

end BPredUnit

namespace BPredRun

variable {PCState StaticInst Tables BPHistory : Type}

/-- A branch that was predicted, how it really goes, and what became of it. -/
structure Branch (PCState BPHistory : Type) where
  record : PredictorHistory PCState BPHistory
  /-- The direction and the target that were predicted. -/
  returned : Bool × PCState
  /-- The direction and the target that the branch has when it is executed. -/
  outcome : Bool × PCState
  committed : Bool := false
  squashed : Bool := false
  /-- The squash for a misprediction was called for this branch. -/
  resolved : Bool := false

namespace Branch

variable (b : Branch PCState BPHistory)

def seqNum : Nat :=
  b.record.seqNum

/-- Was the direction that the predictor gave kept, rather than overridden for want of a target? -/
def directionKept : Prop :=
  b.returned.1 = b.record.predTaken

def mispredicted : Prop :=
  b.returned ≠ b.outcome

instance [DecidableEq PCState] : Decidable b.mispredicted :=
  inferInstanceAs (Decidable (_ ≠ _))

/-- Nothing has become of the branch yet. -/
def inFlight : Bool :=
  !b.committed && !b.squashed && !b.resolved

/-- The branch has run its course as far as training is concerned. -/
def done : Bool :=
  b.committed || b.resolved

/-- The branch commits with the others up to a sequence number. -/
def commit (done_sn : Nat) : Branch PCState BPHistory :=
  if !b.squashed && decide (b.seqNum ≤ done_sn) then { b with committed := true } else b

/-- The branch is squashed with the others after a sequence number. -/
def squashAfter (squashed_sn : Nat) : Branch PCState BPHistory :=
  if !b.committed && decide (squashed_sn < b.seqNum) then { b with squashed := true } else b

/-- The branch is the mispredicted one, or is squashed with those after it. -/
def resolve (squashed_sn : Nat) : Branch PCState BPHistory :=
  if b.seqNum = squashed_sn then { b with resolved := true } else b.squashAfter squashed_sn

/-- The branch, in flight and mispredicted, whose number a squash is called with. -/
def awaits [DecidableEq PCState] (squashed_sn : Nat) : Bool :=
  b.inFlight && decide b.mispredicted && decide (b.seqNum = squashed_sn)

end Branch

/-- The predictor of a thread and the branches that were predicted, the youngest one first. -/
structure State (PCState Tables BPHistory : Type) where
  unit : BPredUnit PCState Tables BPHistory
  branches : List (Branch PCState BPHistory) := []

/-- What fetch asks of the predictor. -/
inductive Op (PCState StaticInst : Type) where
  /-- A branch is predicted, which will have the outcome when it is executed. -/
  | predict (inst : StaticInst) (seqNum : Nat) (pc : PCState) (outcome : Bool × PCState)
  | update (done_sn : Nat)
  | squash (squashed_sn : Nat)
  | squashMispredicted (squashed_sn : Nat)

/--
One request: sequence numbers grow, a branch commits only when it was predicted right or its
misprediction was dealt with, and a misprediction is dealt with for a branch that has one.
-/
def step [DecidableEq PCState] (isa : BranchIsa PCState StaticInst)
    (bp : DirectionPredictor Tables BPHistory) (s : State PCState Tables BPHistory) :
    Op PCState StaticInst → Option (State PCState Tables BPHistory)
  | .predict inst seqNum pc outcome =>
    if s.branches.all fun b => decide (b.seqNum < seqNum) then
      let (unit, taken, target) := s.unit.predict isa bp inst seqNum pc
      unit.predHist.head?.map fun record =>
        { unit, branches := { record, returned := (taken, target), outcome } :: s.branches }
    else none
  | .update done_sn =>
    if s.branches.any fun b => b.inFlight && decide b.mispredicted && decide (b.seqNum ≤ done_sn)
    then none
    else some { unit := s.unit.update bp done_sn, branches := s.branches.map (·.commit done_sn) }
  | .squash squashed_sn =>
    some { unit := s.unit.squash bp squashed_sn
           branches := s.branches.map (·.squashAfter squashed_sn) }
  | .squashMispredicted squashed_sn => do
    let b ← s.branches.find? (·.awaits squashed_sn)
    let unit ← s.unit.squashMispredicted bp squashed_sn b.outcome.2 b.outcome.1
    some { unit, branches := s.branches.map (·.resolve squashed_sn) }

/-- The trainings that are about a branch. -/
def State.trainingsOf (s : State PCState Tables BPHistory) (b : Branch PCState BPHistory) :
    List (Training BPHistory) :=
  s.unit.trainings.filter fun t => t.seqNum == b.seqNum

/--
Every training is about a branch, with its address and history, and tells its direction; every
branch that is kept is trained once, and one that is squashed is not trained unless the squash for
its misprediction came first.
-/
structure Trained (s : State PCState Tables BPHistory) : Prop where
  actual : ∀ t ∈ s.unit.trainings, ∃ b ∈ s.branches, t.seqNum = b.seqNum ∧ t.pc = b.record.pc ∧
    t.bpHistory = b.record.bpHistory ∧ (b.directionKept ∨ b.resolved → t.taken = b.outcome.1)
  kept : ∀ b ∈ s.branches, ¬b.squashed → b.committed ∨ b.resolved →
    (s.trainingsOf b).length = 1
  waiting : ∀ b ∈ s.branches, b.inFlight → s.trainingsOf b = []
  squashed : ∀ b ∈ s.branches, b.squashed →
    (s.trainingsOf b).length = if b.resolved then 1 else 0

section Lists

variable {α : Type} {p q : α → Bool} {l : List α}

theorem filter_or_perm (apart : ∀ a ∈ l, q a = true → p a = false) :
    (l.filter fun a => p a || q a).Perm (l.filter q ++ l.filter p) := by
  -- The induction follows the list, and each element passes one of the tests at most.
  induction l with
  | nil => exact .refl _
  | cons a l ih =>
    have rest := ih fun a' member => apart a' (List.mem_cons_of_mem _ member)
    cases second : q a with
    | true =>
      have first := apart a List.mem_cons_self second
      simpa [first, second] using rest
    | false =>
      cases first : p a with
      | true =>
        simp only [first, second, Bool.or_false, List.filter_cons_of_pos,
          List.filter_cons_of_neg, Bool.false_eq_true, not_false_eq_true]
        exact (rest.cons a).trans List.perm_middle.symm
      | false => simpa [first, second] using rest

end Lists

namespace Branch

variable {b : Branch PCState BPHistory} {n : Nat}

/-- The training of a branch: its direction if it was mispredicted, else the one recorded. -/
def training (b : Branch PCState BPHistory) : Training BPHistory :=
  b.record.training (if b.resolved then b.outcome.1 else b.record.predTaken) b.resolved

@[simp] theorem commit_seqNum : (b.commit n).seqNum = b.seqNum := by
  unfold commit
  split <;> rfl

@[simp] theorem commit_record : (b.commit n).record = b.record := by
  unfold commit
  split <;> rfl

@[simp] theorem commit_training : (b.commit n).training = b.training := by
  unfold commit
  split <;> rfl

@[simp] theorem commit_inFlight :
    (b.commit n).inFlight = (b.inFlight && decide (n < b.seqNum)) := by
  unfold commit inFlight
  by_cases due : b.seqNum ≤ n
  · cases squashed : b.squashed <;> simp [squashed, due, Nat.not_lt.mpr due]
  · simp [due, Nat.lt_of_not_le due]

theorem commit_done :
    (b.commit n).done = (b.done || (b.inFlight && decide (b.seqNum ≤ n))) := by
  unfold commit done inFlight
  by_cases due : b.seqNum ≤ n
  · cases squashed : b.squashed with
    | false => cases b.committed <;> cases b.resolved <;> simp [due]
    | true => simp
  · simp [due]

@[simp] theorem squashAfter_seqNum : (b.squashAfter n).seqNum = b.seqNum := by
  unfold squashAfter
  split <;> rfl

@[simp] theorem squashAfter_record : (b.squashAfter n).record = b.record := by
  unfold squashAfter
  split <;> rfl

@[simp] theorem squashAfter_training : (b.squashAfter n).training = b.training := by
  unfold squashAfter
  split <;> rfl

@[simp] theorem squashAfter_done : (b.squashAfter n).done = b.done := by
  unfold squashAfter
  split <;> rfl

@[simp] theorem squashAfter_inFlight :
    (b.squashAfter n).inFlight = (b.inFlight && decide (b.seqNum ≤ n)) := by
  unfold squashAfter inFlight
  by_cases later : n < b.seqNum
  · cases committed : b.committed <;> simp [committed, later, Nat.not_le.mpr later]
  · simp [later, Nat.le_of_not_lt later]

theorem resolve_of_ne (other : b.seqNum ≠ n) : b.resolve n = b.squashAfter n :=
  if_neg other

theorem squashAfter_of_le (early : b.seqNum ≤ n) : b.squashAfter n = b := by
  simp [squashAfter, Nat.not_lt.mpr early]

end Branch

/-- The branches and the history agree, and what was trained is what has run its course. -/
structure Orderly (s : State PCState Tables BPHistory) : Prop where
  sorted : s.branches.Pairwise fun b b' => b'.seqNum < b.seqNum
  history : s.unit.predHist = (s.branches.filter (·.inFlight)).map (·.record)
  apart : ∀ b ∈ s.branches, b.committed = true → b.squashed = false
  right : ∀ b ∈ s.branches, b.committed = true → b.resolved = false → b.returned = b.outcome
  trainings : s.unit.trainings.Perm ((s.branches.filter (·.done)).map (·.training))

namespace Orderly

variable {s t : State PCState Tables BPHistory} {b : Branch PCState BPHistory}

theorem filter_seqNum (orderly : Orderly s) (member : b ∈ s.branches) :
    s.branches.filter (fun b' => b'.seqNum == b.seqNum) = [b] := by
  obtain ⟨before, after, split⟩ := List.append_of_mem member
  have sorted := orderly.sorted
  rw [split, List.pairwise_append, List.pairwise_cons] at sorted
  obtain ⟨_, ⟨older, _⟩, younger⟩ := sorted
  have none_before : before.filter (fun b' => b'.seqNum == b.seqNum) = [] := by
    rw [List.filter_eq_nil_iff]
    intro b' earlier
    have apart := younger b' earlier b List.mem_cons_self
    simp only [beq_iff_eq]
    omega
  have none_after : after.filter (fun b' => b'.seqNum == b.seqNum) = [] := by
    rw [List.filter_eq_nil_iff]
    intro b' later
    have apart := older b' later
    simp only [beq_iff_eq]
    omega
  rw [split]
  simp [none_before, none_after]

theorem trainingsOf_length (orderly : Orderly s) (member : b ∈ s.branches) :
    (s.trainingsOf b).length = if b.done then 1 else 0 := by
  have counted := (orderly.trainings.filter fun t => t.seqNum == b.seqNum).length_eq
  rw [State.trainingsOf, counted, List.filter_map, List.length_map, List.filter_filter]
  have swapped : s.branches.filter (fun b' => (b'.training.seqNum == b.seqNum) && b'.done) =
      (s.branches.filter fun b' => b'.seqNum == b.seqNum).filter (·.done) := by
    rw [List.filter_filter]
    apply List.filter_congr
    intro b' _
    exact Bool.and_comm _ _
  show (s.branches.filter fun b' => (b'.training.seqNum == b.seqNum) && b'.done).length = _
  rw [swapped, orderly.filter_seqNum member]
  cases done : b.done <;> simp [done]

/-- What is trained is what should be. -/
theorem trained (orderly : Orderly s) : Trained s := by
  constructor
  · intro t member
    obtain ⟨b, known, result⟩ := List.mem_map.mp (orderly.trainings.mem_iff.mp member)
    obtain ⟨branch, done⟩ := List.mem_filter.mp known
    subst result
    refine ⟨b, branch, rfl, rfl, rfl, fun either => ?_⟩
    show (if b.resolved then b.outcome.1 else b.record.predTaken) = b.outcome.1
    cases resolved : b.resolved with
    | true => rfl
    | false =>
      -- A branch that commits without a squash of its own went as it was predicted.
      have committed : b.committed = true := by simpa [Branch.done, resolved] using done
      have as_predicted := orderly.right b branch committed resolved
      have kept : b.directionKept := by simpa [resolved] using either
      rw [← as_predicted]
      exact kept.symm
  · intro b member _ either
    rw [orderly.trainingsOf_length member, if_pos]
    simpa [Branch.done] using either
  · intro b member flying
    apply List.eq_nil_of_length_eq_zero
    rw [orderly.trainingsOf_length member, if_neg]
    simp only [Branch.inFlight, Bool.and_eq_true, Bool.not_eq_true'] at flying
    simp [Branch.done, flying]
  · intro b member squashed
    rw [orderly.trainingsOf_length member]
    have open' : b.committed = false := by
      cases committed : b.committed with
      | false => rfl
      | true => exact absurd squashed (by simp [orderly.apart b member committed])
    simp [Branch.done, open']

theorem history_sorted (orderly : Orderly s) :
    s.unit.predHist.Pairwise fun h h' => h'.seqNum < h.seqNum := by
  rw [orderly.history, List.pairwise_map]
  exact orderly.sorted.filter _

theorem history_filter (orderly : Orderly s) (p : Nat → Bool) :
    s.unit.predHist.filter (fun h => p h.seqNum) =
      (s.branches.filter fun b => b.inFlight && p b.seqNum).map (·.record) := by
  rw [orderly.history, List.filter_map, List.filter_filter]
  congr 1
  apply List.filter_congr
  intro b _
  exact Bool.and_comm _ _

variable {bp : DirectionPredictor Tables BPHistory} {n : Nat}

/-- Committing keeps the branches in order. -/
theorem update (orderly : Orderly s)
    (dealt : ∀ b ∈ s.branches, b.inFlight = true → b.seqNum ≤ n → b.returned = b.outcome) :
    Orderly { unit := s.unit.update bp n, branches := s.branches.map (·.commit n) } := by
  obtain ⟨left, trained⟩ := BPredUnit.update_spec bp n orderly.history_sorted
  constructor
  · rw [List.pairwise_map]
    simpa only [Branch.commit_seqNum] using orderly.sorted
  · dsimp only
    rw [left, orderly.history_filter fun seqNum => decide (n < seqNum), List.filter_map,
      List.map_map]
    simp only [Function.comp_def, Branch.commit_record, Branch.commit_inFlight]
  · intro b' member committed
    obtain ⟨b, known, result⟩ := List.mem_map.mp member
    subst result
    have before := orderly.apart b known
    unfold Branch.commit at committed ⊢
    split at committed
    case isTrue due =>
      rw [if_pos due]
      simp only [Bool.and_eq_true, Bool.not_eq_true'] at due
      exact due.1
    case isFalse other =>
      rw [if_neg other]
      exact before committed
  · intro b' member committed unresolved
    obtain ⟨b, known, result⟩ := List.mem_map.mp member
    subst result
    have before := orderly.right b known
    have flying := dealt b known
    unfold Branch.commit at committed unresolved ⊢
    split at committed
    case isTrue due =>
      rw [if_pos due] at unresolved ⊢
      simp only [Bool.and_eq_true, Bool.not_eq_true', decide_eq_true_eq] at due
      -- What commits now was in flight or had committed before.
      cases already : b.committed with
      | true => exact before already unresolved
      | false => exact flying (by simp_all [Branch.inFlight]) due.2
    case isFalse other =>
      rw [if_neg other] at unresolved ⊢
      exact before committed unresolved
  · dsimp only
    rw [trained, orderly.history_filter fun seqNum => decide (seqNum ≤ n), List.filter_map,
      List.map_map, List.map_map]
    simp only [Function.comp_def, Branch.commit_training, Branch.commit_done]
    -- The branches that commit were not trained before.
    have parts := filter_or_perm (p := fun b : Branch PCState BPHistory => b.done)
      (q := fun b => b.inFlight && decide (b.seqNum ≤ n)) (l := s.branches) (by
        intro b _ due
        simp only [Branch.inFlight, Bool.and_eq_true, Bool.not_eq_true'] at due
        simp [Branch.done, due])
    apply List.Perm.trans _ (parts.map _).symm
    rw [List.map_append]
    apply List.Perm.append _ orderly.trainings
    -- A branch in flight is trained as it is recorded.
    apply List.Perm.of_eq
    apply List.map_congr_left
    intro b due
    have flying := (List.mem_filter.mp due).2
    simp only [Branch.inFlight, Bool.and_eq_true, Bool.not_eq_true'] at flying
    simp [Branch.training, flying]

/-- Squashing keeps the branches in order. -/
theorem squash (bp : DirectionPredictor Tables BPHistory) (n : Nat) (orderly : Orderly s) :
    Orderly { unit := s.unit.squash bp n, branches := s.branches.map (·.squashAfter n) } := by
  obtain ⟨left, trained⟩ := BPredUnit.squash_spec bp n orderly.history_sorted
  constructor
  · rw [List.pairwise_map]
    simpa only [Branch.squashAfter_seqNum] using orderly.sorted
  · dsimp only
    rw [left, orderly.history_filter fun seqNum => decide (seqNum ≤ n), List.filter_map,
      List.map_map]
    simp only [Function.comp_def, Branch.squashAfter_record, Branch.squashAfter_inFlight]
  · intro b' member committed
    obtain ⟨b, known, result⟩ := List.mem_map.mp member
    subst result
    have before := orderly.apart b known
    unfold Branch.squashAfter at committed ⊢
    split at committed
    case isTrue later => simp_all
    case isFalse other =>
      rw [if_neg other]
      exact before committed
  · intro b' member committed unresolved
    obtain ⟨b, known, result⟩ := List.mem_map.mp member
    subst result
    have before := orderly.right b known
    unfold Branch.squashAfter at committed unresolved ⊢
    split at committed
    case isTrue later => simp_all
    case isFalse other =>
      rw [if_neg other] at unresolved ⊢
      exact before committed unresolved
  · dsimp only
    rw [trained, List.filter_map, List.map_map]
    simp only [Function.comp_def, Branch.squashAfter_training, Branch.squashAfter_done]
    exact orderly.trainings

/-- The youngest branch that is left leaves the history and is trained as it goes. -/
theorem dealt {unit unit' : BPredUnit PCState Tables BPHistory}
    {younger older : List (Branch PCState BPHistory)}
    (orderly : Orderly { unit, branches := younger ++ b :: older }) (flying : b.inFlight = true)
    (gone : younger.filter (·.inFlight) = [])
    (predHist : unit'.predHist = (older.filter (·.inFlight)).map (·.record))
    (trainings : unit'.trainings = b.record.training b.outcome.1 true :: unit.trainings) :
    Orderly { unit := unit', branches := younger ++ { b with resolved := true } :: older } := by
  have member : ∀ b' ∈ younger ++ { b with resolved := true } :: older,
      b' ∈ younger ++ b :: older ∨ b' = { b with resolved := true } := by
    intro b' known
    simp only [List.mem_append, List.mem_cons] at known ⊢
    rcases known with early | same | late
    · exact .inl (.inl early)
    · exact .inr same
    · exact .inl (.inr (.inr late))
  simp only [Branch.inFlight, Bool.and_eq_true, Bool.not_eq_true'] at flying
  obtain ⟨⟨uncommitted, _⟩, unresolved⟩ := flying
  constructor
  · have numbers : (younger ++ { b with resolved := true } :: older).map Branch.seqNum =
        (younger ++ b :: older).map Branch.seqNum := by
      simp [Branch.seqNum]
    have sorted : ((younger ++ b :: older).map Branch.seqNum).Pairwise fun m m' => m' < m :=
      List.pairwise_map.mpr orderly.sorted
    rw [← numbers] at sorted
    exact List.pairwise_map.mp sorted
  · dsimp only
    rw [predHist, List.filter_append, gone, List.nil_append,
      List.filter_cons_of_neg (by simp [Branch.inFlight])]
  · intro b' known committed
    rcases member b' known with before | same
    · exact orderly.apart b' before committed
    · subst same
      rw [uncommitted] at committed
      cases committed
  · intro b' known committed open'
    rcases member b' known with before | same
    · exact orderly.right b' before committed open'
    · subst same
      cases open'
  · have trained := orderly.trainings
    dsimp only at trained ⊢
    rw [List.filter_append,
      List.filter_cons_of_neg (by simp [Branch.done, uncommitted, unresolved]),
      List.map_append] at trained
    rw [trainings, List.filter_append, List.filter_cons_of_pos (by simp [Branch.done]),
      List.map_append, List.map_cons]
    exact (trained.cons _).trans List.perm_middle.symm

/-- Dealing with a misprediction succeeds and keeps the branches in order. -/
theorem resolve [DecidableEq PCState] (bp : DirectionPredictor Tables BPHistory)
    (orderly : Orderly s)
    (found : s.branches.find? (·.awaits n) = some b) :
    ∃ unit, s.unit.squashMispredicted bp n b.outcome.2 b.outcome.1 = some unit ∧
      Orderly { unit, branches := s.branches.map (·.resolve n) } := by
  have awaits := List.find?_some found
  simp only [Branch.awaits, Bool.and_eq_true, decide_eq_true_eq] at awaits
  obtain ⟨⟨flying, _⟩, number⟩ := awaits
  obtain ⟨younger, older, split⟩ := List.append_of_mem (List.mem_of_find?_eq_some found)
  have sorted := orderly.sorted
  rw [split, List.pairwise_append, List.pairwise_cons] at sorted
  obtain ⟨_, ⟨after, _⟩, before⟩ := sorted
  have later : ∀ b' ∈ younger, n < b'.seqNum := fun b' member =>
    number ▸ before b' member b List.mem_cons_self
  have earlier : ∀ b' ∈ older, b'.seqNum < n := fun b' member => number ▸ after b' member
  -- The squash leaves the branch and those before it alone, and none after it stays in flight.
  have kept : older.map (·.squashAfter n) = older := by
    refine (List.map_congr_left fun b' member => ?_).trans (List.map_id _)
    exact Branch.squashAfter_of_le (Nat.le_of_lt (earlier b' member))
  have squashed := orderly.squash bp n
  have branches : s.branches.map (·.squashAfter n) =
      younger.map (·.squashAfter n) ++ b :: older := by
    rw [split, List.map_append, List.map_cons, kept, Branch.squashAfter_of_le (by omega)]
  have resolved : s.branches.map (·.resolve n) =
      younger.map (·.squashAfter n) ++ { b with resolved := true } :: older := by
    rw [split, List.map_append, List.map_cons, Branch.resolve, if_pos number]
    congr 1
    · apply List.map_congr_left
      intro b' member
      exact Branch.resolve_of_ne (Nat.ne_of_gt (later b' member))
    · congr 1
      refine (List.map_congr_left fun b' member => ?_).trans kept
      exact Branch.resolve_of_ne (Nat.ne_of_lt (earlier b' member))
  rw [branches] at squashed
  rw [resolved]
  have gone : (younger.map (·.squashAfter n)).filter (·.inFlight) = [] := by
    rw [List.filter_eq_nil_iff]
    intro b' member
    obtain ⟨b'', known, result⟩ := List.mem_map.mp member
    subst result
    simp [Nat.not_le.mpr (later b'' known)]
  -- So the branch is the youngest one that is left.
  have history : (s.unit.squash bp n).predHist =
      b.record :: (older.filter (·.inFlight)).map (·.record) := by
    rw [squashed.history]
    simp [gone, flying]
  unfold BPredUnit.squashMispredicted
  dsimp only
  rw [history]
  dsimp only
  have same : ¬b.record.seqNum ≠ n := not_not_intro number
  rw [if_neg same]
  split
  · exact ⟨_, rfl, squashed.dealt flying gone rfl rfl⟩
  · exact ⟨_, rfl, squashed.dealt flying gone rfl rfl⟩

end Orderly

variable {isa : BranchIsa PCState StaticInst} {bp : DirectionPredictor Tables BPHistory}
  [DecidableEq PCState]

/-- A request keeps the branches in order. -/
theorem step_orderly {s t : State PCState Tables BPHistory} {op : Op PCState StaticInst}
    (orderly : Orderly s) (taken : step isa bp s op = some t) : Orderly t := by
  cases op with
  | predict inst seqNum pc outcome =>
    simp only [step] at taken
    split at taken
    case isTrue grows =>
      obtain ⟨record, pushed, numbered, trained⟩ :=
        BPredUnit.predict_record isa bp s.unit seqNum inst pc
      rw [pushed] at taken
      simp only [List.head?_cons, Option.map_some, Option.some.injEq] at taken
      subst taken
      constructor
      · rw [List.pairwise_cons]
        refine ⟨fun b member => ?_, orderly.sorted⟩
        have below := List.all_eq_true.mp grows b member
        show b.seqNum < record.seqNum
        rw [numbered]
        exact of_decide_eq_true below
      · dsimp only
        rw [pushed, orderly.history]
        rfl
      · intro b member committed
        rcases List.mem_cons.mp member with new | old
        · subst new
          cases committed
        · exact orderly.apart b old committed
      · intro b member committed unresolved
        rcases List.mem_cons.mp member with new | old
        · subst new
          cases committed
        · exact orderly.right b old committed unresolved
      · dsimp only
        rw [trained]
        exact orderly.trainings
    case isFalse shrinks => cases taken
  | update done_sn =>
    simp only [step] at taken
    split at taken
    case isTrue early => cases taken
    case isFalse dealt =>
      cases taken
      apply orderly.update
      intro b member flying due
      by_contra wrong
      apply dealt
      rw [List.any_eq_true]
      refine ⟨b, member, ?_⟩
      simp [flying, due, Branch.mispredicted, wrong]
  | squash squashed_sn =>
    cases taken
    exact orderly.squash bp squashed_sn
  | squashMispredicted squashed_sn =>
    simp only [step, Option.bind_eq_bind, Option.bind_eq_some_iff] at taken
    obtain ⟨b, found, unit, dealt, result⟩ := taken
    cases result
    obtain ⟨unit', succeeds, after⟩ := orderly.resolve bp found
    rw [dealt] at succeeds
    cases succeeds
    exact after

/--
In every state of every run each training is about a branch and tells its direction, each branch
that is kept is trained exactly once, and a squashed one only if its misprediction was dealt with.
-/
theorem trained_once (isa : BranchIsa PCState StaticInst)
    (bp : DirectionPredictor Tables BPHistory) (tables : Tables) (BTB : DefaultBTB PCState)
    (RAS : ReturnAddrStack PCState) (ops : List (Op PCState StaticInst)) :
    Machine.Always (step isa bp) Trained { unit := { tables, BTB, RAS } } ops := by
  have first : Orderly
      ({ unit := { tables, BTB, RAS } } : State PCState Tables BPHistory) :=
    ⟨.nil, rfl, by simp, by simp, .refl _⟩
  exact Machine.always_of_invariant (fun _ orderly => orderly.trained)
    (fun _ _ _ orderly taken => step_orderly orderly taken) first

/-- Conditional branches of a machine whose program counter is an address. -/
def conditional : BranchIsa Addr Unit where
  instAddr pc := pc
  zero := 0
  buildRetPC _ return_addr := return_addr
  advancePC pc _ := pc + 4
  isUncondCtrl _ := false
  isCall _ := false
  isReturn _ := false

/-- The sizes that the predictor has unless they are configured. -/
def defaultParams : TournamentParams where
  localPredictorSize := 2048
  localCtrBits := 2
  localHistoryTableSize := 2048
  globalPredictorSize := 8192
  globalCtrBits := 2
  choicePredictorSize := 8192
  choiceCtrBits := 2
  instShiftAmt := 2

/-- Two branches are both taken, and the younger one is found mispredicted first. -/
def youngerFirst : List (Op Addr Unit) :=
  [.predict () 1 0x1000 (true, 0x2000), .predict () 2 0x1004 (true, 0x3000),
    .squashMispredicted 2, .squashMispredicted 1]

/-- The younger one is then squashed although the predictor was trained with it. -/
theorem squashed_but_trained :
    ¬Machine.Always (step conditional (TournamentBP.predictor defaultParams))
      (fun s => ∀ b ∈ s.branches, b.squashed → s.trainingsOf b = [])
      { unit :=
          { tables := .create defaultParams
            BTB := ⟨4096, 16, 2, fun _ => ⟨0, 0, false⟩⟩
            RAS := { numEntries := 16, addrStack := fun _ => 0 } } } youngerFirst := by
  intro always
  have trained : (Machine.run (step conditional (TournamentBP.predictor defaultParams))
      { unit :=
          { tables := .create defaultParams
            BTB := ⟨4096, 16, 2, fun _ => ⟨0, 0, false⟩⟩
            RAS := { numEntries := 16, addrStack := fun _ => 0 } } } youngerFirst).any
      (fun s => s.branches.any fun b => b.squashed && !(s.trainingsOf b).isEmpty) = true := by
    decide +kernel
  obtain ⟨s, ran, broken⟩ := (Option.any_eq_true _ _).mp trained
  obtain ⟨b, member, both⟩ := List.any_eq_true.mp broken
  rw [Bool.and_eq_true, Bool.not_eq_true'] at both
  rw [always.at_end ran b member both.1] at both
  cases both.2

end BPredRun

end GemDroid
