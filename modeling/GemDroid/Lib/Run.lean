import Mathlib.Logic.Basic

/-! Finite runs of a machine that may refuse an event, and the invariant rules over them. -/

namespace Machine

variable {State Event : Type*} {step : State → Event → Option State}

/-- The state after all events, or nothing when one of them was refused. -/
def run (step : State → Event → Option State) : State → List Event → Option State
  | s, [] => some s
  | s, e :: es => (step s e).bind fun t => run step t es

/-- Every event that takes effect does so in a state that allows it. -/
def Meets (step : State → Event → Option State) (allowed : State → Event → Prop) :
    State → List Event → Prop
  | _, [] => True
  -- A refused event changes nothing, so it needs no permission.
  | s, e :: es => ∀ t, step s e = some t → allowed s e ∧ Meets step allowed t es

/-- Every event comes to a state that allows it, whether it takes effect there or not. -/
def Permits (step : State → Event → Option State) (allowed : State → Event → Prop) :
    State → List Event → Prop
  | _, [] => True
  | s, e :: es => allowed s e ∧ ∀ t, step s e = some t → Permits step allowed t es

/-- The property holds in every state the run passes through, the first one included. -/
def Always (step : State → Event → Option State) (holds : State → Prop) :
    State → List Event → Prop
  | s, [] => holds s
  | s, e :: es => holds s ∧ ∀ t, step s e = some t → Always step holds t es

@[simp] theorem run_nil (s : State) : run step s [] = some s := rfl

@[simp] theorem run_cons (s : State) (e : Event) (es : List Event) :
    run step s (e :: es) = (step s e).bind fun t => run step t es := rfl

/-- A run meets a condition when its first event does and the rest does from there. -/
theorem meets_cons {allowed : State → Event → Prop} {s t : State} {e : Event} {es : List Event}
    (taken : step s e = some t) (permitted : allowed s e) (later : Meets step allowed t es) :
    Meets step allowed s (e :: es) := by
  intro t' taken'
  rw [taken] at taken'
  cases taken'
  exact ⟨permitted, later⟩

/-- A run over two lists continues the second from where the first ended. -/
theorem run_append (s : State) (first second : List Event) :
    run step s (first ++ second) = (run step s first).bind fun t => run step t second := by
  -- The induction follows the first list, whose steps both sides take alike.
  induction first generalizing s with
  | nil => simp
  | cons e es ih =>
    cases taken : step s e with
    | none => simp [taken]
    | some t => simp [taken, ih]

/-- The last event of a run is taken from the state the others lead to. -/
theorem run_concat (s : State) (es : List Event) (e : Event) :
    run step s (es ++ [e]) = (run step s es).bind fun t => step t e := by
  -- A run over one event is that event.
  rw [run_append]
  congr 1
  funext t
  cases taken : step t e <;> simp [taken]

/-- Repeating one event walks along a sequence of states that it links. -/
theorem run_replicate {e : Event} {states : Nat → State} {n : Nat}
    (linked : ∀ k < n, step (states k) e = some (states (k + 1))) :
    run step (states 0) (List.replicate n e) = some (states n) := by
  -- The last event is taken from the state before the last.
  induction n with
  | zero => rfl
  | succ n ih =>
    rw [List.replicate_succ', run_concat, ih fun k below => linked k (by omega),
      Option.bind_some, linked n (by omega)]

/-- What every step preserves holds wherever a run ends. -/
theorem run_preserves {I : State → Prop}
    (kept : ∀ s e t, I s → step s e = some t → I t) {es : List Event} {s t : State}
    (start : I s) (ran : run step s es = some t) : I t := by
  -- The induction follows the events, with the state free to change.
  induction es generalizing s with
  | nil =>
    simp only [run_nil, Option.some.injEq] at ran
    exact ran ▸ start
  | cons e es ih =>
    simp only [run_cons, Option.bind_eq_some_iff] at ran
    obtain ⟨middle, taken, rest⟩ := ran
    exact ih (kept s e middle start taken) rest

/-- What every allowed step preserves holds wherever a run of allowed steps ends. -/
theorem run_preserves_of_meets {I : State → Prop} {allowed : State → Event → Prop}
    (kept : ∀ s e t, I s → allowed s e → step s e = some t → I t)
    {es : List Event} {s t : State} (start : I s) (meets : Meets step allowed s es)
    (ran : run step s es = some t) : I t := by
  -- The first event is allowed where it is taken, and the rest meet the condition from there.
  induction es generalizing s with
  | nil =>
    simp only [run_nil, Option.some.injEq] at ran
    exact ran ▸ start
  | cons e es ih =>
    simp only [run_cons, Option.bind_eq_some_iff] at ran
    obtain ⟨middle, taken, rest⟩ := ran
    obtain ⟨permitted, later⟩ := meets middle taken
    exact ih (kept s e middle start permitted taken) later rest

/-- A run meets a condition on two lists when it meets it on each in turn. -/
theorem meets_append {allowed : State → Event → Prop} {s t : State}
    {first second : List Event} (ran : run step s first = some t) :
    Meets step allowed s (first ++ second) ↔
      Meets step allowed s first ∧ Meets step allowed t second := by
  -- The first list succeeds, so each of its events really is taken.
  induction first generalizing s with
  | nil =>
    simp only [run_nil, Option.some.injEq] at ran
    simp [Meets, ran]
  | cons e es ih =>
    simp only [run_cons, Option.bind_eq_some_iff] at ran
    obtain ⟨middle, taken, rest⟩ := ran
    simp only [List.cons_append, Meets, taken, Option.some.injEq, forall_eq', ih rest, and_assoc]

/-- The condition on a run with one more event adds only what that event needs. -/
theorem meets_concat {allowed : State → Event → Prop} {s t : State} {es : List Event}
    {e : Event} (ran : run step s es = some t) :
    Meets step allowed s (es ++ [e]) ↔
      Meets step allowed s es ∧ ((step t e).isSome → allowed t e) := by
  -- An event that is refused asks for nothing.
  rw [meets_append ran]
  cases taken : step t e <;> simp [Meets, taken]

/-- A run meets a condition that its events satisfy in every state. -/
theorem meets_of_forall {allowed : State → Event → Prop} {es : List Event}
    (every : ∀ e ∈ es, ∀ s, allowed s e) (s : State) : Meets step allowed s es := by
  -- The events satisfy the condition wherever the run has got to.
  induction es generalizing s with
  | nil => trivial
  | cons e es ih =>
    intro t _
    exact ⟨every e (by simp) s, ih (fun e' member => every e' (by simp [member])) t⟩

/-- What is promised of every event may be added to the condition a run meets. -/
theorem Meets.and_of_forall {allowed : State → Event → Prop} {promised : Event → Prop}
    {es : List Event} {s : State} (meets : Meets step allowed s es)
    (every : ∀ e ∈ es, promised e) : Meets step (fun s e => promised e ∧ allowed s e) s es := by
  -- The promise is about the events alone, so it holds at every state.
  induction es generalizing s with
  | nil => trivial
  | cons e es ih =>
    intro t taken
    obtain ⟨permitted, later⟩ := meets t taken
    exact ⟨⟨every e (by simp), permitted⟩, ih later fun e' member => every e' (by simp [member])⟩

/-- A run that meets two conditions meets both at once. -/
theorem Meets.and {first second : State → Event → Prop} {es : List Event} {s : State}
    (one : Meets step first s es) (two : Meets step second s es) :
    Meets step (fun s e => first s e ∧ second s e) s es := by
  -- The induction follows the events that are taken.
  induction es generalizing s with
  | nil => trivial
  | cons e es ih =>
    intro t taken
    exact ⟨⟨(one t taken).1, (two t taken).1⟩, ih (one t taken).2 (two t taken).2⟩

/-- A run that meets a condition meets a weaker one. -/
theorem Meets.mono {strong weak : State → Event → Prop} {es : List Event} {s : State}
    (meets : Meets step strong s es) (weaker : ∀ s e, strong s e → weak s e) :
    Meets step weak s es := by
  -- The induction follows the events that are taken.
  induction es generalizing s with
  | nil => trivial
  | cons e es ih =>
    intro t taken
    obtain ⟨permitted, later⟩ := meets t taken
    exact ⟨weaker s e permitted, ih later⟩

/-- Two conditions that agree wherever one of them was met before are met by the same runs. -/
theorem meets_congr {I : State → Prop} {first second : State → Event → Prop}
    (agree : ∀ s e t, I s → step s e = some t → (first s e ↔ second s e))
    (kept : ∀ s e t, I s → second s e → step s e = some t → I t) {es : List Event} {s : State}
    (start : I s) : Meets step first s es ↔ Meets step second s es := by
  -- The conditions agree on the first event, and either one then gives the invariant.
  induction es generalizing s with
  | nil => exact Iff.rfl
  | cons e es ih =>
    refine forall_congr' fun t => forall_congr' fun taken => ?_
    have here := agree s e t start taken
    constructor
    · rintro ⟨permitted, later⟩
      have also := here.mp permitted
      exact ⟨also, (ih (kept s e t start also taken)).mp later⟩
    · rintro ⟨permitted, later⟩
      exact ⟨here.mpr permitted, (ih (kept s e t start permitted taken)).mpr later⟩

/-- A property that holds all along a run holds where it begins. -/
theorem Always.at_start {holds : State → Prop} {es : List Event} {s : State}
    (always : Always step holds s es) : holds s := by
  cases es with
  | nil => exact always
  | cons e es => exact always.1

/--
A property that each step keeps exactly when it is allowed holds all along a run exactly when
every step of the run is allowed.
-/
theorem always_iff_meets {holds : State → Prop} {allowed : State → Event → Prop}
    (exact' : ∀ s e t, holds s → step s e = some t → (holds t ↔ allowed s e))
    {es : List Event} {s : State} (first : holds s) :
    Always step holds s es ↔ Meets step allowed s es := by
  -- Each step keeps the property exactly when it is allowed, and the rest follows by induction.
  induction es generalizing s with
  | nil => simpa [Always, Meets] using first
  | cons e es ih =>
    simp only [Always, Meets, first, true_and]
    refine forall_congr' fun t => forall_congr' fun taken => ?_
    have local' := exact' s e t first taken
    constructor
    · intro always
      have here : holds t := always.at_start
      exact ⟨local'.mp here, (ih here).mp always⟩
    · rintro ⟨permitted, meets⟩
      exact (ih (local'.mpr permitted)).mpr meets

/--
A property that an invariant gives, and that every step that is not allowed breaks, holds all
along a run exactly when every step of the run is allowed.
-/
theorem always_iff_meets_of_invariant {I holds : State → Prop} {allowed : State → Event → Prop}
    (gives : ∀ s, I s → holds s)
    (kept : ∀ s e t, I s → allowed s e → step s e = some t → I t)
    (broken : ∀ s e t, I s → ¬allowed s e → step s e = some t → ¬holds t)
    {es : List Event} {s : State} (first : I s) :
    Always step holds s es ↔ Meets step allowed s es := by
  -- The induction follows the events, and the invariant holds as far as they are allowed.
  induction es generalizing s with
  | nil => simpa [Always, Meets] using gives s first
  | cons e es ih =>
    simp only [Always, Meets, gives s first, true_and]
    apply forall_congr'
    intro t
    apply forall_congr'
    intro taken
    constructor
    · intro always
      by_cases permitted : allowed s e
      · exact ⟨permitted, (ih (kept s e t first permitted taken)).mp always⟩
      · exact absurd always.at_start (broken s e t first permitted taken)
    · rintro ⟨permitted, meets⟩
      exact (ih (kept s e t first permitted taken)).mpr meets

/-- A property that an invariant gives holds all along a run that begins with the invariant. -/
theorem always_of_invariant {I holds : State → Prop} (gives : ∀ s, I s → holds s)
    (kept : ∀ s e t, I s → step s e = some t → I t) {es : List Event} {s : State}
    (first : I s) : Always step holds s es := by
  -- The invariant is handed from each state to the next.
  induction es generalizing s with
  | nil => exact gives s first
  | cons e es ih => exact ⟨gives s first, fun t taken => ih (kept s e t first taken)⟩

/-- A property that an invariant gives holds all along a run whose steps are all allowed. -/
theorem always_of_meets {I holds : State → Prop} {allowed : State → Event → Prop}
    (gives : ∀ s, I s → holds s)
    (kept : ∀ s e t, I s → allowed s e → step s e = some t → I t) {es : List Event} {s : State}
    (first : I s) (meets : Meets step allowed s es) : Always step holds s es := by
  -- The invariant is handed from each state to the next, as long as the steps are allowed.
  induction es generalizing s with
  | nil => exact gives s first
  | cons e es ih =>
    refine ⟨gives s first, fun t taken => ?_⟩
    obtain ⟨permitted, later⟩ := meets t taken
    exact ih (kept s e t first permitted taken) later

/--
A run whose events are all allowed takes all of them, when an invariant makes every event that is
allowed succeed.
-/
theorem ok_of_permits {I holds : State → Prop} {allowed good : State → Event → Prop}
    (gives : ∀ s, I s → holds s)
    (steps : ∀ s e, I s → allowed s e → ∃ t, step s e = some t ∧ I t ∧ good s e)
    {es : List Event} {s : State} (first : I s) (permits : Permits step allowed s es) :
    (run step s es).isSome ∧ Always step holds s es ∧ Meets step good s es := by
  -- The invariant is handed from each state to the next one, which every event leads to.
  induction es generalizing s with
  | nil => exact ⟨rfl, gives s first, trivial⟩
  | cons e es ih =>
    obtain ⟨permitted, later⟩ := permits
    obtain ⟨t, taken, kept, good⟩ := steps s e first permitted
    obtain ⟨ran, always, meets⟩ := ih kept (later t taken)
    refine ⟨by rwa [run_cons, taken, Option.bind_some], ⟨gives s first, fun t' taken' => ?_⟩,
      meets_cons taken good meets⟩
    obtain rfl := Option.some.inj (taken.symm.trans taken')
    exact always

/-- A property that holds all along a run holds where it ends. -/
theorem Always.at_end {holds : State → Prop} {es : List Event} {s t : State}
    (always : Always step holds s es) (ran : run step s es = some t) : holds t := by
  -- The induction follows the events down to the last state.
  induction es generalizing s with
  | nil =>
    simp only [run_nil, Option.some.injEq] at ran
    exact ran ▸ always
  | cons e es ih =>
    simp only [run_cons, Option.bind_eq_some_iff] at ran
    obtain ⟨middle, taken, rest⟩ := ran
    exact ih (always.2 middle taken) rest

end Machine
