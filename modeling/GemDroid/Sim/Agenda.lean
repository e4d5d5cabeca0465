import GemDroid.Sim.EventQueueRun

/-! What an operation on the list of scheduled events leaves as it was. -/

namespace GemDroid.Agenda

section

variable {E : Type} {priority : E → Int} {touched more : E → Prop} {a b c : Agenda E} {e x y : E}

/-- An event is scheduled, and another one does not come before it. -/
def Leads (a : Agenda E) (e x : E) : Prop :=
  ∃ pre post, a.events = pre ++ e :: post ∧ x ∉ pre

theorem orderedInsert_split (r : E → E → Prop) [DecidableRel r] (e : E) (l : List E) :
    ∃ pre post, l = pre ++ post ∧ l.orderedInsert r e = pre ++ e :: post ∧
      (∀ y ∈ pre, ¬r e y) ∧ ∀ y ∈ post.head?, r e y := by
  induction l with
  | nil => exact ⟨[], [], rfl, rfl, by simp, by simp⟩
  | cons y l ih =>
    by_cases here : r e y
    · refine ⟨[], y :: l, rfl, ?_, by simp, by simpa using here⟩
      rw [List.orderedInsert_cons, if_pos here]
      rfl
    · obtain ⟨pre, post, rfl, inserted, before, after⟩ := ih
      refine ⟨y :: pre, post, rfl, ?_, ?_, after⟩
      · rw [List.orderedInsert_cons, if_neg here, inserted]
        rfl
      · intro z member
        obtain rfl | later := List.mem_cons.mp member
        · exact here
        · exact before z later

/-- A change that concerns some events only, as far as the others go. -/
structure Apart (priority : E → Int) (touched : E → Prop) (a b : Agenda E) : Prop where
  curTick : b.curTick = a.curTick
  scheduled : ∀ e, ¬touched e → (e ∈ b.events ↔ e ∈ a.events)
  when : ∀ e, ¬touched e → b.when e = a.when e
  leads : ∀ e x, ¬touched e → ¬touched x → a.Leads e x → b.Leads e x
  timely : Timely priority a → Timely priority b
  unsquashed : (∀ e, a.squashed e = false) → ∀ e, b.squashed e = false

theorem Apart.refl (a : Agenda E) : Apart priority touched a a :=
  ⟨rfl, fun _ _ => Iff.rfl, fun _ _ => rfl, fun _ _ _ _ => id, id, id⟩

theorem Apart.trans (first : Apart priority touched a b) (second : Apart priority touched b c) :
    Apart priority touched a c where
  curTick := second.curTick.trans first.curTick
  scheduled e other := (second.scheduled e other).trans (first.scheduled e other)
  when e other := (second.when e other).trans (first.when e other)
  leads e x other other' was := second.leads e x other other' (first.leads e x other other' was)
  timely was := second.timely (first.timely was)
  unsquashed was := second.unsquashed (first.unsquashed was)

theorem Apart.mono (apart : Apart priority touched a b) (included : ∀ e, touched e → more e) :
    Apart priority more a b where
  curTick := apart.curTick
  scheduled e other := apart.scheduled e fun is => other (included e is)
  when e other := apart.when e fun is => other (included e is)
  leads e x other other' := apart.leads e x (fun is => other (included e is))
    fun is => other' (included x is)
  timely := apart.timely
  unsquashed := apart.unsquashed

variable [DecidableEq E] {when : Nat}

theorem when_insert_self : (a.insert priority e when).when e = when := by
  simp [insert]

theorem when_insert (other : x ≠ e) : (a.insert priority e when).when x = a.when x := by
  simp [insert, Function.update_of_ne other]

theorem insert_split (priority : E → Int) (a : Agenda E) (e : E) (when : Nat) :
    ∃ pre post, a.events = pre ++ post ∧ (a.insert priority e when).events = pre ++ e :: post ∧
      (∀ y ∈ pre, ((a.insert priority e when).due priority y).Before
        ((a.insert priority e when).due priority e)) := by
  obtain ⟨pre, post, eq, inserted, before, -⟩ := orderedInsert_split
    (fun l r => ((a.insert priority e when).due priority l).NotAfter
      ((a.insert priority e when).due priority r)) e a.events
  refine ⟨pre, post, eq, inserted, fun y member => ?_⟩
  by_contra notBefore
  exact before y member (Due.not_before.mp notBefore)

theorem leads_insert (other : x ≠ e)
    (later : x ∈ a.events → ¬(a.due priority x).Before ⟨when, priority e⟩) :
    (a.insert priority e when).Leads e x := by
  obtain ⟨pre, post, eq, inserted, before⟩ := insert_split priority a e when
  refine ⟨pre, post, inserted, fun member => ?_⟩
  refine absurd (before x member) ?_
  simpa [due, when_insert_self, when_insert other] using later (by simp [eq, member])

/-- Scheduling another event keeps the order. -/
theorem Leads.insert_other (leads : a.Leads e x) (other : x ≠ y) :
    (a.insert priority y when).Leads e x := by
  obtain ⟨p, q, eq, notBefore⟩ := leads
  obtain ⟨pre, post, split, inserted, -⟩ := insert_split priority a y when
  rw [split] at eq
  obtain ⟨middle, before, after⟩ | ⟨middle, before, after⟩ := List.append_eq_append_iff.mp eq
  · -- The other event goes before both of them.
    refine ⟨pre ++ y :: middle, q, ?_, ?_⟩
    · rw [inserted, after]
      simp
    · intro member
      obtain inside | rfl | inside : x ∈ pre ∨ x = y ∨ x ∈ middle := by simpa using member
      · exact notBefore (by simp [before, inside])
      · exact other rfl
      · exact notBefore (by simp [before, inside])
  · cases middle with
    | nil =>
      -- It goes right before the first of them.
      simp only [List.append_nil, List.nil_append] at before after
      refine ⟨pre ++ [y], q, ?_, ?_⟩
      · rw [inserted, ← after]
        simp
      · intro member
        obtain inside | rfl : x ∈ pre ∨ x = y := by simpa using member
        · exact notBefore (before ▸ inside)
        · exact other rfl
    | cons z middle =>
      simp only [List.cons_append, List.cons.injEq] at after
      obtain ⟨rfl, -⟩ := after
      refine ⟨p, middle ++ y :: post, ?_, notBefore⟩
      rw [inserted, before]
      simp

theorem Leads.remove_other (leads : a.Leads e x) (other : y ≠ e) : (a.remove y).Leads e x := by
  obtain ⟨p, q, eq, notBefore⟩ := leads
  by_cases early : y ∈ p
  · refine ⟨p.erase y, q, ?_, fun member => notBefore (List.mem_of_mem_erase member)⟩
    show a.events.erase y = _
    rw [eq, List.erase_append_left _ early]
  · refine ⟨p, q.erase y, ?_, notBefore⟩
    show a.events.erase y = _
    rw [eq, List.erase_append_right _ early, List.erase_cons_tail (by simpa using other.symm)]

theorem Apart.insert (isTouched : touched e) (new : e ∉ a.events) (future : a.curTick ≤ when) :
    Apart priority touched a (a.insert priority e when) := by
  have other {x : E} (not : ¬touched x) : x ≠ e := by
    rintro rfl
    exact not isTouched
  refine ⟨rfl, fun x not => ?_, fun x not => when_insert (other not), fun x y _ not leads => ?_,
    fun timely => timely.insert new future, id⟩
  · rw [mem_insert]
    simp [other not]
  · exact leads.insert_other (other not)

theorem unsquash_all (all : ∀ x, a.squashed x = false) (e x : E) :
    (a.unsquash e).squashed x = false := by
  by_cases same : x = e
  · subst same
    exact Function.update_self ..
  · exact (Function.update_of_ne same _ _).trans (all x)

theorem Apart.remove (isTouched : touched e) :
    Apart priority touched a ((a.remove e).unsquash e) := by
  have other {x : E} (not : ¬touched x) : x ≠ e := by
    rintro rfl
    exact not isTouched
  exact ⟨rfl, fun x not => List.mem_erase_of_ne (other not), fun _ _ => rfl,
    fun x y not _ leads => leads.remove_other (other not).symm,
    fun timely => (timely.remove e).unsquash e, fun all => unsquash_all (a := a.remove e) all e⟩

theorem Apart.move (isTouched : touched e) (future : a.curTick ≤ when) :
    Apart priority touched a (((a.remove e).insert priority e when).unsquash e) := by
  have other {x : E} (not : ¬touched x) : x ≠ e := by
    rintro rfl
    exact not isTouched
  refine ⟨rfl, fun x not => ?_, fun x not => ?_, fun x y not not' leads => ?_,
    fun timely => ?_, fun all => unsquash_all (a := (a.remove e).insert priority e when) all e⟩
  · show x ∈ ((a.remove e).insert priority e when).events ↔ x ∈ a.events
    rw [mem_insert]
    show x = e ∨ x ∈ a.events.erase e ↔ x ∈ a.events
    rw [List.mem_erase_of_ne (other not)]
    simp [other not]
  · show Function.update a.when e when x = a.when x
    exact Function.update_of_ne (other not) _ _
  · exact (leads.remove_other (other not).symm).insert_other (other not')
  · exact ((timely.remove e).insert timely.nodup.not_mem_erase future).unsquash e

end

end GemDroid.Agenda
