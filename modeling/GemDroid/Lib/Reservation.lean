import Mathlib.Logic.Function.Basic

/-! Reservations that writes break, and the lock tables that are to keep track of them. -/

namespace Reservation

/-- What each context reserved last, and whether nothing has written to it since. -/
structure Monitor (Context Region : Type*) where
  last : Context → Option Region
  intact : Context → Prop

namespace Monitor

variable {Context Region : Type*}

/-- Nobody has reserved anything. -/
def start : Monitor Context Region :=
  { last := fun _ => none, intact := fun _ => False }

/-- A context reserves a region, and gives up what it had reserved before. -/
def reserve [DecidableEq Context] (c : Context) (region : Region) (m : Monitor Context Region) :
    Monitor Context Region :=
  { last := Function.update m.last c (some region)
    intact := Function.update m.intact c True }

/-- A write breaks every reservation whose region it hits. -/
def write (hits : Region → Prop) (m : Monitor Context Region) : Monitor Context Region :=
  { m with intact := fun c => m.intact c ∧ ∀ region, m.last c = some region → ¬hits region }

/-- A lock table grants exactly the reservations that are intact. -/
def Agrees (m : Monitor Context Region) (grants : Context → Region → Prop) : Prop :=
  ∀ c region, m.last c = some region → (m.intact c ↔ grants c region)

/-- A context has reserved a region and still holds it. -/
def Holds (m : Monitor Context Region) (c : Context) (region : Region) : Prop :=
  m.last c = some region ∧ m.intact c

theorem start_agrees (grants : Context → Region → Prop) : start.Agrees grants := by
  intro c region reserved
  simp [start] at reserved

variable {m : Monitor Context Region} {before after : Context → Region → Prop}

/-- A table keeps up with a reservation that it grants while it leaves the others alone. -/
theorem Agrees.reserve [DecidableEq Context] {c : Context} {region : Region}
    (agrees : m.Agrees before) (own : after c region)
    (others : ∀ c' r, c' ≠ c → m.last c' = some r → (after c' r ↔ before c' r)) :
    (m.reserve c region).Agrees after := by
  intro c' r reserved
  by_cases same : c' = c
  · subst same
    simp only [Monitor.reserve, Function.update_self, Option.some.injEq] at reserved ⊢
    simpa [← reserved] using own
  · simp only [Monitor.reserve, Function.update_of_ne same] at reserved ⊢
    rw [agrees c' r reserved, others c' r same reserved]

/-- A table keeps up with a write by dropping what the write hits and nothing else. -/
theorem Agrees.write {hits : Region → Prop} (agrees : m.Agrees before)
    (cleared : ∀ c region, m.last c = some region →
      (after c region ↔ before c region ∧ ¬hits region)) :
    (m.write hits).Agrees after := by
  intro c region reserved
  have known : m.last c = some region := reserved
  rw [cleared c region known, ← agrees c region known]
  simp [Monitor.write, known]

end Monitor

end Reservation
