import Mathlib.Data.List.Basic

/-! Postconditions of computations that may end in a fault. -/

namespace Outcome

universe u

variable {ε : Type*} {α β : Type u}

/-- The computation ends in a result that satisfies `post` or in a fault that `fault` admits. -/
def Ends (fault : ε → Prop) (x : Except ε α) (post : α → Prop) : Prop :=
  match x with
  | .ok a => post a
  | .error e => fault e

/-- No fault is excluded; what is asked is what holds if there is none. -/
def Any : ε → Prop :=
  fun _ => True

variable {fault : ε → Prop}

@[simp] theorem ends_ok (a : α) (post : α → Prop) :
    Ends fault (.ok a) post ↔ post a := Iff.rfl

@[simp] theorem ends_pure (a : α) (post : α → Prop) :
    Ends fault (pure a) post ↔ post a := Iff.rfl

@[simp] theorem ends_error (e : ε) (post : α → Prop) :
    Ends fault (.error e) post ↔ fault e := Iff.rfl

/-- A sequence is judged by its first part, whose results the second part takes over. -/
@[simp] theorem ends_bind (x : Except ε α) (f : α → Except ε β) (post : β → Prop) :
    Ends fault (x >>= f) post ↔ Ends fault x fun a => Ends fault (f a) post := by
  cases x <;> rfl

/-- A sequence returns what its second part returns on the result of the first one. -/
theorem bind_eq_ok {x : Except ε α} {f : α → Except ε β} {b : β} :
    x >>= f = .ok b ↔ ∃ a, x = .ok a ∧ f a = .ok b := by
  cases x with
  | error e => simp [bind, Except.bind]
  | ok a => simp [bind, Except.bind]

/-- A computation that is guarded by a fault returns only where the fault does not occur. -/
theorem ite_error_eq_ok {c : Prop} [Decidable c] {e : ε} {x : Except ε α} {a : α} :
    (if c then .error e else x) = .ok a ↔ ¬c ∧ x = .ok a := by
  split <;> simp_all

/-- Nothing is asked of a computation that may end in any way. -/
theorem ends_any (x : Except ε α) : Ends Any x fun _ => True := by
  cases x <;> trivial

/-- A computation that satisfies a postcondition satisfies a weaker one. -/
theorem Ends.mono {x : Except ε α} {strong weak : α → Prop} (ends : Ends fault x strong)
    (weaker : ∀ a, strong a → weak a) : Ends fault x weak := by
  -- A fault is judged alike by both.
  cases x with
  | error e => exact ends
  | ok a => exact weaker a ends

/-- A computation whose faults are admitted has them admitted where more are. -/
theorem Ends.mono_fault {few many : ε → Prop} {x : Except ε α} {post : α → Prop}
    (ends : Ends few x post) (more : ∀ e, few e → many e) : Ends many x post := by
  -- A result is judged alike by both.
  cases x with
  | error e => exact more e ends
  | ok a => exact ends

/-- What a computation returned satisfies its postcondition. -/
theorem Ends.of_ok {x : Except ε α} {post : α → Prop} {a : α} (ends : Ends fault x post)
    (returned : x = .ok a) : post a := by
  subst returned
  exact ends

/-- A fault that ended a computation is an admitted one. -/
theorem Ends.of_error {x : Except ε α} {post : α → Prop} {e : ε} (ends : Ends fault x post)
    (failed : x = .error e) : fault e := by
  subst failed
  exact ends

/-- A computation whose result is checked has a result. -/
theorem exists_ok {x : Except ε α} {p : α → Prop} [DecidablePred p]
    (checked : x.toOption.any (fun a => decide (p a)) = true) : ∃ a, x = .ok a ∧ p a := by
  cases x with
  | error e => cases checked
  | ok a => exact ⟨a, rfl, of_decide_eq_true checked⟩

/-- A loop over a list keeps what each of its rounds keeps for the elements of the list. -/
theorem ends_foldlM_mem {γ : Type*} {f : α → γ → Except ε α} {I : α → Prop} {bs : List γ}
    (round : ∀ a, ∀ b ∈ bs, I a → Ends fault (f a b) I) {a : α} (start : I a) :
    Ends fault (bs.foldlM f a) I := by
  -- The induction follows the list, and each round hands its invariant to the next.
  induction bs generalizing a with
  | nil => exact start
  | cons b bs ih =>
    rw [List.foldlM_cons, ends_bind]
    refine (round a b (by simp) start).mono fun _ kept => ?_
    exact ih (fun a' b' member => round a' b' (by simp [member])) kept

/-- A loop over a list keeps what each of its rounds keeps. -/
theorem ends_foldlM {γ : Type*} {f : α → γ → Except ε α} {I : α → Prop}
    (round : ∀ a b, I a → Ends fault (f a b) I) (bs : List γ) {a : α} (start : I a) :
    Ends fault (bs.foldlM f a) I :=
  ends_foldlM_mem (fun a b _ => round a b) start

/-- A loop of checks over a list faults only as one of its checks does. -/
theorem ends_forM {γ : Type*} {f : γ → Except ε PUnit} {bs : List γ}
    (each : ∀ b ∈ bs, Ends fault (f b) fun _ => True) :
    Ends fault (bs.forM f) fun _ => True := by
  -- The induction follows the list, and the first check comes before the others.
  induction bs with
  | nil => trivial
  | cons b bs ih =>
    show Ends fault (f b >>= fun _ => bs.forM f) _
    rw [ends_bind]
    exact (each b (by simp)).mono fun _ _ => ih fun b' member => each b' (by simp [member])

end Outcome
