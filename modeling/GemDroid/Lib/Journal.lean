import Mathlib.Data.List.TakeWhile

/-! Journals of numbered changes that are undone from the newest one and forgotten from the
  oldest. -/

namespace Journal

variable {Entry State : Type*} (number : Entry → Nat) (undo : Entry → State → State)

/-- The newest entries, those numbered past a number. -/
def newer (s : Nat) (log : List Entry) : List Entry :=
  log.takeWhile fun e => decide (s < number e)

/-- What is left of a journal without its newest entries. -/
def older (s : Nat) (log : List Entry) : List Entry :=
  log.dropWhile fun e => decide (s < number e)

/-- The state before the changes of a journal, whose newest entry comes first. -/
def undone (log : List Entry) (state : State) : State :=
  log.foldl (fun state e => undo e state) state

/-- The state that a trail recorded last up to a number, or the first one of all. -/
def stateAt (s : Nat) (trail : List (Nat × State)) (first : State) : State :=
  ((older Prod.fst s trail).head?.map Prod.snd).getD first

/-- From some number on, undoing the newer changes leads to the state recorded then. -/
def Restores (since : Nat) (log : List Entry) (state : State) (trail : List (Nat × State))
    (first : State) : Prop :=
  ∀ s, since ≤ s → undone undo (newer number s log) state = stateAt s trail first

variable {number undo} {since s t : Nat} {log recent forgotten : List Entry}
  {state changed first : State} {trail : List (Nat × State)}

@[simp] theorem undone_nil : undone undo [] state = state := rfl

@[simp] theorem undone_cons {e : Entry} :
    undone undo (e :: log) state = undone undo log (undo e state) := rfl

theorem undone_append :
    undone undo (recent ++ log) state = undone undo log (undone undo recent state) :=
  List.foldl_append

theorem newer_append_older : newer number s log ++ older number s log = log :=
  List.takeWhile_append_dropWhile

/-- Nothing is newer than a number that all entries keep to. -/
theorem newer_eq_nil (bounded : ∀ e ∈ log, number e ≤ s) : newer number s log = [] := by
  cases log with
  | nil => rfl
  | cons e log => simp [newer, Nat.not_lt.mpr (bounded e (by simp))]

/-- Entries that are all newer come before whatever else is. -/
theorem newer_append (all : ∀ e ∈ recent, s < number e) :
    newer number s (recent ++ log) = recent ++ newer number s log :=
  List.takeWhile_append_of_pos fun e member => by simpa using all e member

/-- Forgetting entries that are not newer does not change what is newer. -/
theorem newer_of_forgotten (old : ∀ e ∈ forgotten, number e ≤ s) :
    newer number s (log ++ forgotten) = newer number s log := by
  -- The induction follows the entries that are kept, down to the first forgotten one.
  induction log with
  | nil => exact newer_eq_nil old
  | cons e log ih =>
    unfold newer at ih ⊢
    rw [List.cons_append, List.takeWhile_cons, List.takeWhile_cons, ih]

/-- Nothing in what is left is newer, as far as its first entry goes. -/
theorem newer_older (bound : s ≤ t) : newer number t (older number s log) = [] := by
  -- The first entry that is left is not newer than the lower number.
  induction log with
  | nil => rfl
  | cons e log ih =>
    by_cases past : s < number e
    · simpa [older, past] using ih
    · simp [older, newer, past, Nat.not_lt.mpr (Nat.le_trans (Nat.not_lt.mp past) bound)]

/-- What is newer than a lower number is first what is newer than a higher one. -/
theorem newer_split (bound : s ≤ t) :
    newer number s log = newer number t log ++ newer number s (older number t log) := by
  -- The induction follows the entries that are newer than the higher number.
  induction log with
  | nil => rfl
  | cons e log ih =>
    by_cases past : t < number e
    · have lower : s < number e := by omega
      simpa [newer, older, past, lower] using ih
    · simp [newer, older, past]

/-- The state recorded last up to a higher number is the newest of what is left. -/
theorem stateAt_older (bound : s ≤ t) :
    stateAt t (older Prod.fst s trail) first = stateAt s trail first := by
  have none : newer Prod.fst t (older Prod.fst s trail) = [] := newer_older bound
  have split : newer Prod.fst t (older Prod.fst s trail) ++
      older Prod.fst t (older Prod.fst s trail) = older Prod.fst s trail := newer_append_older
  rw [none, List.nil_append] at split
  rw [stateAt, split, stateAt]

/-- What was recorded up to a lower number is still there after the newer records are dropped. -/
theorem stateAt_of_older (bound : s ≤ t) :
    stateAt s (older Prod.fst t trail) first = stateAt s trail first := by
  -- Dropping past the higher number drops only what is past the lower one too.
  have dropped : older Prod.fst s (older Prod.fst t trail) = older Prod.fst s trail := by
    induction trail with
    | nil => rfl
    | cons p trail ih =>
      by_cases past : t < p.1
      · have lower : s < p.1 := by omega
        simpa [older, past, lower] using ih
      · simp [older, past]
  rw [stateAt, dropped, stateAt]

/-- A journal without entries restores the state that it began with. -/
theorem restores_nil : Restores number undo since [] state [] state := by
  intro s _
  rfl

/-- New changes that can be undone join the journal, and the state they led to is recorded. -/
theorem Restores.push (restores : Restores number undo since log state trail first)
    (numbered : ∀ e ∈ recent, number e = t) (past : ∀ e ∈ log, number e < t)
    (undoes : undone undo recent changed = state) :
    Restores number undo since (recent ++ log) changed ((t, changed) :: trail) first := by
  intro s after
  by_cases reached : s < t
  · -- The new changes are all undone, and the older ones as before.
    rw [newer_append fun e member => by rw [numbered e member]; exact reached, undone_append,
      undoes, restores s after]
    simp [stateAt, older, reached]
  · -- Nothing is undone, and the last record is the new one.
    have within : ∀ e ∈ recent ++ log, number e ≤ s := by
      intro e member
      rcases List.mem_append.mp member with new | old
      · rw [numbered e new]
        omega
      · have := past e old
        omega
    rw [newer_eq_nil within]
    simp [stateAt, older, reached]

/-- Forgetting the oldest changes takes away only that they can be undone. -/
theorem Restores.forget (restores : Restores number undo since (log ++ forgotten) state trail first)
    (old : ∀ e ∈ forgotten, number e ≤ t) :
    Restores number undo (max since t) log state trail first := by
  intro s after
  rw [← restores s (by omega), newer_of_forgotten fun e member => by
    have := old e member
    omega]

/-- After the newer changes were undone, their records are dropped. -/
theorem Restores.rollback (restores : Restores number undo since log state trail first)
    (after : since ≤ t) :
    Restores number undo since (older number t log) (undone undo (newer number t log) state)
      (older Prod.fst t trail) first := by
  intro s later
  rcases Nat.le_total t s with reached | before
  · rw [newer_older reached, undone_nil, restores t after, stateAt_older reached]
  · rw [← undone_append, ← newer_split before, restores s later, stateAt_of_older before]

end Journal
